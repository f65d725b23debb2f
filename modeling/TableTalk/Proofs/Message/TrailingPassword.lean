import TableTalk.Proofs.Message.Course
import TableTalk.Proofs.Shortcut.Expansion

/-!
# A password at the end of a message to an open table

On a table without an access table a password at the end of a message should change
nothing.  The password is taken off after the shortcuts, though, so this holds of the
expanded command and not of every message: a shortcut can move the password into a value
(`Handling.not_always_same_run`).

Where the shortcuts leave the password at the end of the command, or drop it
(`Command.PasswordKept`), the message is handled with the same result, the same requests
and the same changes to the host as without it (`Handling.run_of_trailing_password`).  The
same theorem says which patterns do: those with the last key of the input at the end of the
output and nowhere else, or nowhere at all.
-/

namespace TableTalk

open Text (Blank Solid)

/-- The message with a password at its end. -/
def Message.withPassword (message : Message) (password : Text) : Message :=
  { message with body := message.body ++ Command.passwordTail password }

/-- The host with other shortcuts. -/
def Host.withShortcuts {σ : Type} (shortcuts : List Shortcut) (host : Host σ) : Host σ
  | .shortcuts, s => (.ok shortcuts, s)
  | request, s => host request s

namespace Command

/-- The second command is the first one, or the first one with the password after it; and
in that case the password is neither its second word nor before another password, nor do
the blanks before it go to the name of the table. -/
structure PasswordKept (password command command' : Text) : Prop where
  upToPassword : UpToPassword password command command'
  two_words : command' ≠ command → 2 ≤ (Text.words command).length
  no_password : command' ≠ command → (splitPassword command).2 = []
  name_eq : command' ≠ command → targetName command' = targetName command

variable {password command command' gap : Text}

theorem added_ne (command gap password : Text) :
    command ++ (gap ++ passwordTail password) ≠ command := by
  intro hEq
  have hLength := congrArg List.length hEq
  simp [passwordTail] at hLength

theorem UpToPassword.targetName_eq (h : UpToPassword password command command')
    (hCommand : isCommand command = true) : targetName command' = targetName command := by
  cases h with
  | same => rfl
  | added gap hGap => exact targetName_append (space_mem_of_isCommand hCommand) _

theorem PasswordKept.targetName_eq (h : PasswordKept password command command') :
    targetName command' = targetName command := by
  by_cases hEq : command' = command
  · rw [hEq]
  · exact h.name_eq hEq

theorem PasswordKept.mode_eq (h : PasswordKept password command command') :
    mode command' = mode command := by
  cases h.upToPassword with
  | same => rfl
  | added gap hGap =>
      have hWords : Text.words (command ++ gap) = Text.words command :=
        Text.words_append_blank hGap
      have hTwo := h.two_words (added_ne command gap password)
      rw [← hWords] at hTwo
      calc mode (command ++ (gap ++ passwordTail password))
          = mode (command ++ gap ++ ' ' :: '#' :: password) := by
            rw [List.append_assoc, passwordTail]
        _ = mode (command ++ gap) := mode_append hTwo _
        _ = mode command := by rw [mode, mode, hWords]

/-- Without the password the two commands are the same. -/
theorem PasswordKept.splitPassword_eq (h : PasswordKept password command command')
    (hTrim : Text.trimEnd command = command) (hSome : password ≠ []) (hSolid : Solid password) :
    (splitPassword command').1 = (splitPassword command).1 := by
  cases h.upToPassword with
  | same => rfl
  | added gap hGap =>
      have hNone := h.no_password (added_ne command gap password)
      rw [← List.append_assoc, splitPassword_append hSolid.space_not_mem hSome,
        Text.trimEnd_append_blank hGap, hTrim]
      rcases splitPassword_cases command with hSplit | ⟨body, own, -, hOwn, -, hSplit⟩
      · rw [hSplit]
      · rw [hSplit] at hNone
        exact absurd hNone hOwn

/-- A trimmed command has a word after its first space. -/
theorem two_words_of_isCommand (hTrim : Text.trimEnd command = command)
    (h : isCommand command = true) : 2 ≤ (Text.words command).length := by
  obtain ⟨rest, rfl⟩ := exists_of_isCommand h
  obtain ⟨name, args, hSplit, -⟩ := List.eq_append_cons_of_mem (space_mem_of_isCommand h)
  have hArgs : Text.words args ≠ [] := by
    rw [hSplit] at hTrim
    exact Text.words_ne_nil_of_trimEnd hTrim Text.isBlank_space
  have hName : Text.words name ≠ [] := by
    rw [ne_eq, Text.words_eq_nil_iff]
    intro hBlank
    rcases name with _ | ⟨c, name⟩
    · cases hSplit
    · obtain rfl := (List.cons.inj hSplit).1
      exact hBlank.not_mem (by decide : Text.isBlank '@' = false) List.mem_cons_self
  rw [hSplit, Text.words_append_cons Text.isBlank_space, List.length_append]
  have hFirst := List.length_pos_iff.mpr hName
  have hSecond := List.length_pos_iff.mpr hArgs
  omega

end Command

namespace Handling

open Command (PasswordKept)

variable {limits : Limits} {now : Instant} {message : Message} {password : Text}

/-! ### On an open table -/

/-- On an open table a command goes straight to work. -/
theorem onTable_of_open {table : Table} (hOpen : table.accessTable = none) (command : Text) :
    onTable limits now message command table =
      match Command.mode command with
      | .error e => .done (.error e)
      | .ok mode => work limits now message table (commandArguments command) mode := by
  unfold onTable Guard.check
  rw [hOpen]
  rfl

/-- The work on a table does not look at the body of the message. -/
theorem work_withPassword (table : Table) (args : Text) (mode : Command.Mode) :
    work limits now (message.withPassword password) table args mode =
      work limits now message table args mode := by
  cases mode with
  | add => rfl
  | query => rfl

theorem onTable_withPassword {table : Table} {command command' : Text}
    (hOpen : table.accessTable = none) (hKept : PasswordKept password command command')
    (hTrim : Text.trimEnd command = command) (hSome : password ≠ []) (hSolid : Solid password) :
    onTable limits now (message.withPassword password) command' table =
      onTable limits now message command table := by
  rw [onTable_of_open hOpen, onTable_of_open hOpen, hKept.mode_eq, commandArguments,
    hKept.splitPassword_eq hTrim hSome hSolid, ← commandArguments]
  cases Command.mode command with
  | error e => rfl
  | ok mode => exact work_withPassword table _ mode

/-! ### Two runs -/

variable {σ : Type} {host : Host σ} {s : σ}

/-- Two requests alike lead to the same run if every answer does. -/
theorem run_ask_congr {α : Type} {request : Request} {next next' : request.Answer → Program α}
    (h : ∀ answer, (host request s).1 = .ok answer →
      (next answer).run host (host request s).2 = (next' answer).run host (host request s).2) :
    (Program.ask request next).run host s = (Program.ask request next').run host s := by
  rw [Program.run, Program.run]
  rcases hHost : host request s with ⟨e | answer, s'⟩
  · rfl
  · rw [hHost] at h
    simp only [h answer rfl]

/-- The tables that the exchanges find are open. -/
def AllOpen (xs : List Exchange) : Prop :=
  ∀ name table, ⟨.findTable name, .ok (some table)⟩ ∈ xs → table.accessTable = none

/-- On every list of shortcuts among the exchanges the password is kept. -/
def AllKeep (limits : Limits) (message : Message) (password : Text) (xs : List Exchange) : Prop :=
  ∀ shortcuts, ⟨.shortcuts, .ok shortcuts⟩ ∈ xs →
    PasswordKept password (command limits message shortcuts)
      (command limits (message.withPassword password) shortcuts)

theorem run_expanded_withPassword {command command' : Text}
    (hKept : PasswordKept password command command') (hTrim : Text.trimEnd command = command)
    (hSome : password ≠ []) (hSolid : Solid password)
    (hOpen : AllOpen ((expanded limits now message command).exchanges host s)) :
    (expanded limits now (message.withPassword password) command').run host s =
      (expanded limits now message command).run host s := by
  unfold expanded at hOpen ⊢
  rw [hKept.targetName_eq]
  apply run_ask_congr
  intro found hFound
  cases found with
  | none => rfl
  | some table =>
      have hTable := hOpen _ table (Program.answer_mem_exchanges hFound)
      exact congrArg (fun p => Program.run host p _)
        (onTable_withPassword hTable hKept hTrim hSome hSolid)

theorem run_stages_withPassword (hBody : Command.isCommand message.body = true)
    (hSome : password ≠ []) (hSolid : Solid password)
    (hKept : AllKeep limits message password ((stages limits now message).exchanges host s))
    (hOpen : AllOpen ((stages limits now message).exchanges host s)) :
    (stages limits now (message.withPassword password)).run host s =
      (stages limits now message).run host s := by
  have hBody' : Command.isCommand (message.withPassword password).body = true :=
    Command.isCommand_append hBody _
  unfold stages at hKept hOpen ⊢
  rw [if_pos hBody] at hKept hOpen ⊢
  rw [if_pos hBody']
  apply run_ask_congr
  intro shortcuts hShortcuts
  have hTrim := Shortcut.trim_expand shortcuts limits.shortcutDepth message.body
  refine run_expanded_withPassword (hKept shortcuts (Program.answer_mem_exchanges hShortcuts))
    (Text.trimEnd_of_trim hTrim) hSome hSolid ?_
  intro name table hMem
  exact hOpen name table (Program.mem_exchanges_of_mem hShortcuts hMem)

/-- Patterns that leave a password at the end of a message, or drop it, keep it. -/
theorem passwordKept_of_stays {shortcuts : List Shortcut}
    (hBody : Command.isCommand message.body = true) (hSolid : Solid password)
    (hStays : Shortcut.PasswordStays shortcuts password (Text.trim message.body))
    (hNone : (Command.splitPassword (command limits message shortcuts)).2 = []) :
    PasswordKept password (command limits message shortcuts)
      (command limits (message.withPassword password) shortcuts) := by
  have hUp : Command.UpToPassword password (command limits message shortcuts)
      (command limits (message.withPassword password) shortcuts) :=
    Shortcut.expand_upToPassword hBody hSolid hStays limits.shortcutDepth
  have hCommand : Command.isCommand (command limits message shortcuts) = true :=
    (hStays _ (Shortcut.reaches_expand shortcuts limits.shortcutDepth message.body)).isCommand
  have hTrim : Text.trimEnd (command limits message shortcuts) =
      command limits message shortcuts :=
    Text.trimEnd_of_trim (Shortcut.trim_expand shortcuts limits.shortcutDepth message.body)
  exact ⟨hUp, fun _ => Command.two_words_of_isCommand hTrim hCommand, fun _ => hNone,
    fun _ => hUp.targetName_eq hCommand⟩

/-- **A password at the end of a message to an open table changes nothing, where the
shortcuts keep it there or drop it.**  The message with the password and the message
without it have the same run on every host: the same result, the same requests with the
same arguments, the same state in the end.  The shortcuts do keep it if on every text on
the way their last key stands at the end of the output and nowhere else, or nowhere, if
the password makes no shortcut match, and if no password is left in the command. -/
theorem run_of_trailing_password (limits : Limits) (now : Instant) (message : Message)
    (password : Text) (hBody : Command.isCommand message.body = true) (hSome : password ≠ [])
    (hSolid : Solid password) :
    (∀ (σ : Type) (host : Host σ) (s : σ),
      AllKeep limits message password ((handle limits now message).exchanges host s) →
      AllOpen ((handle limits now message).exchanges host s) →
      (handle limits now (message.withPassword password)).run host s =
        (handle limits now message).run host s) ∧
    ∀ shortcuts, Shortcut.PasswordStays shortcuts password (Text.trim message.body) →
      (Command.splitPassword (command limits message shortcuts)).2 = [] →
      PasswordKept password (command limits message shortcuts)
        (command limits (message.withPassword password) shortcuts) := by
  constructor
  · intro σ host s hKept hOpen
    unfold handle at hKept hOpen ⊢
    rw [Program.exchanges_bind_done] at hKept hOpen
    rw [Program.run_bind_done, Program.run_bind_done,
      run_stages_withPassword hBody hSome hSolid hKept hOpen]
  · intro shortcuts hStays hNone
    exact passwordKept_of_stays hBody hSolid hStays hNone

/-! ### A shortcut for a name -/

/-- A host that finds open tables only. -/
theorem allOpen_of_host {α : Type} (p : Program α)
    (h : ∀ name table s', (host (.findTable name) s').1 = .ok (some table) →
      table.accessTable = none) : AllOpen (p.exchanges host s) := by
  intro name table hMem
  obtain ⟨s', hAnswer⟩ := (Program.gives_exchanges host p s).exists_of_mem hMem
  exact h name table s' hAnswer

/-- An open table with two columns of text. -/
def barn : Table :=
  ⟨['b', 'a', 'r', 'n'], ['b', 'a', 'r', 'n'],
    [{ storageName := ['n'], displayName := ['N'], type := .text },
      { storageName := ['b'], displayName := ['B'], type := .text }], none⟩

/-- The shortcut `n` takes all that follows as the key `who`. -/
def nameShortcut (output : Text) : Shortcut :=
  ⟨['n'], ['%', 'w', 'h', 'o', '%'], output⟩

/-- The barn behind the shortcut `n`. -/
def barnHost (output : Text) : Host Unit :=
  Host.withShortcuts [nameShortcut output] (Host.ofTable barn false [])

/-- A message to the shortcut `n`. -/
def joe : Message :=
  ⟨['7'], ['@', 'n', ' ', 'J', 'o', 'e']⟩

theorem solid_pw : Solid ['p', 'w'] := by
  intro c hc
  rw [List.mem_pair] at hc
  rcases hc with rfl | rfl <;> rfl

/-- The key ends the command, or a value of its own follows. -/
def nameLast : Text :=
  ['@', 'b', 'a', 'r', 'n', ' ', '+', 'N', ' ', '%', 'w', 'h', 'o', '%']

def bedsLast : Text :=
  ['@', 'b', 'a', 'r', 'n', ' ', '+', 'N', ' ', '%', 'w', 'h', 'o', '%', ' ', '+', 'B', ' ', '3']

theorem allOpen_barnHost {α : Type} (p : Program α) (output : Text) :
    AllOpen (p.exchanges (barnHost output) ()) := by
  apply allOpen_of_host
  intro name table s' hFound
  have hBarn : (if name = barn.displayName then some barn else none) = some table :=
    Except.ok.inj hFound
  split at hBarn
  · obtain rfl := Option.some.inj hBarn
    rfl
  · cases hBarn

theorem keepsLast_nameLast : (nameShortcut nameLast).KeepsLast ['w', 'h', 'o'] :=
  ⟨⟨[], rfl⟩, Or.inr ⟨[], rfl, by simp⟩⟩

theorem reaches_joe {t : Text} (h : Shortcut.Reaches [nameShortcut nameLast] joe.body t) :
    t = joe.body ∨ t = ['@', 'b', 'a', 'r', 'n', ' ', '+', 'N', ' ', 'J', 'o', 'e'] := by
  induction h with
  | start => exact Or.inl rfl
  | step hReach hStep ih =>
      right
      rcases ih with rfl | rfl
      · exact (Option.some.inj hStep).symm
      · cases hStep

theorem passwordStays_joe :
    Shortcut.PasswordStays [nameShortcut nameLast] ['p', 'w'] joe.body := by
  intro t hReach
  rcases reaches_joe hReach with rfl | rfl
  · refine ⟨rfl, fun s hMem _ => ?_, fun s hMem _ hNone => ?_⟩
    · obtain rfl := List.mem_singleton.mp hMem
      exact ⟨_, keepsLast_nameLast⟩
    · obtain rfl := List.mem_singleton.mp hMem
      cases hNone
  · -- No shortcut has the name of the table.
    have hName : ∀ s ∈ [nameShortcut nameLast], s.name ≠ ['b', 'a', 'r', 'n'] := by
      intro s hMem
      obtain rfl := List.mem_singleton.mp hMem
      simp [nameShortcut]
    exact ⟨rfl, fun s hMem h => absurd h (hName s hMem), fun s hMem h => absurd h (hName s hMem)⟩

/-- The one shortcut keeps the password at the end, so the same name is inserted. -/
theorem run_of_trailing_password_barn :
    Shortcut.PasswordStays [nameShortcut nameLast] ['p', 'w'] joe.body ∧
    (handle {} (.midnight ⟨2024, 11, 2, by decide⟩) (joe.withPassword ['p', 'w'])).run
        (barnHost nameLast) () =
      (handle {} (.midnight ⟨2024, 11, 2, by decide⟩) joe).run (barnHost nameLast) () ∧
    ((handle {} (.midnight ⟨2024, 11, 2, by decide⟩) joe).run (barnHost nameLast) ()).result =
      .ok (.inserted ['b', 'a', 'r', 'n'] [(['n'], ['J', 'o', 'e'])]) := by
  obtain ⟨hRun, hKept⟩ := run_of_trailing_password {} (.midnight ⟨2024, 11, 2, by decide⟩) joe
    ['p', 'w'] rfl (by simp) solid_pw
  refine ⟨passwordStays_joe, ?_, rfl⟩
  apply hRun
  · intro shortcuts hMem
    obtain ⟨s', hAnswer⟩ := (Program.gives_exchanges (barnHost nameLast) _ ()).exists_of_mem hMem
    obtain rfl : [nameShortcut nameLast] = shortcuts := Except.ok.inj hAnswer
    exact hKept _ passwordStays_joe rfl
  · exact allOpen_barnHost _ nameLast

/-- A password does change what is inserted: it is moved into the name when the shortcut
puts another value after it. -/
theorem not_always_same_run :
    ¬ ∀ (σ : Type) (host : Host σ) (s : σ) (limits : Limits) (now : Instant) (message : Message)
        (password : Text),
      Command.isCommand message.body = true →
      2 ≤ (Text.words (Text.trim message.body)).length →
      (Command.splitPassword (Text.trim message.body)).2 = [] →
      password ≠ [] → Solid password →
      AllOpen ((handle limits now message).exchanges host s) →
      AllOpen ((handle limits now (message.withPassword password)).exchanges host s) →
      ((handle limits now (message.withPassword password)).run host s).result =
          ((handle limits now message).run host s).result ∧
        ((handle limits now (message.withPassword password)).run host s).requests =
          ((handle limits now message).run host s).requests := by
  intro hSame
  have hResult := (hSame Unit (barnHost bedsLast) () {} (.midnight ⟨2024, 11, 3, by decide⟩) joe
    ['p', 'w'] rfl (by decide) rfl (by simp)
    solid_pw
    (allOpen_barnHost _ bedsLast) (allOpen_barnHost _ bedsLast)).1
  have hWithout : ((handle {} (.midnight ⟨2024, 11, 3, by decide⟩) joe).run
      (barnHost bedsLast) ()).result =
    .ok (.inserted ['b', 'a', 'r', 'n'] [(['b'], ['3']), (['n'], ['J', 'o', 'e'])]) := rfl
  have hWith : ((handle {} (.midnight ⟨2024, 11, 3, by decide⟩)
      (joe.withPassword ['p', 'w'])).run (barnHost bedsLast) ()).result =
    .ok (.inserted ['b', 'a', 'r', 'n']
      [(['b'], ['3']), (['n'], ['J', 'o', 'e', ' ', '#', 'p', 'w'])]) := rfl
  rw [hWith, hWithout] at hResult
  simp at hResult

end Handling

end TableTalk
