import TableTalk.Proofs.Command.Signs
import TableTalk.Proofs.Message.Course
import TableTalk.Proofs.Shortcut.Expansion
import TableTalk.Proofs.Traversal

/-!
# The pair that makes a message an add

A message is an add because of its second word, and its pairs are cut from its arguments
at spaces that are followed by a plus sign.  When the second word follows a space, its
label is the first of the pairs, or the message is refused.  When it follows another
blank, it is passed over, and a row is inserted without it
(`Handling.not_every_add_has_pair`).  `Handling.pairs_agree_with_mode` states both cases,
for all trimmed commands and for every insert of a handling.
-/

namespace TableTalk

open Command (OpensAdd AfterSpace)

/-- The pairs of some arguments open with a label, or the arguments are refused. -/
def Add.OpensWith (label args : Text) : Prop :=
  (∃ cause, pairs args = .error cause) ∨ ∃ value more, pairs args = .ok ((label, value) :: more)

variable {command name gap label rest : Text}

theorem Command.OpensAdd.opensWith (h : OpensAdd command name gap label rest)
    (hSpace : AfterSpace gap) : Add.OpensWith label (arguments command) := by
  have hPieces := h.pieces_arguments.1 hSpace
  unfold Add.OpensWith
  cases hPairs : Add.pairs (arguments command) with
  | error cause => exact Or.inl ⟨cause, rfl⟩
  | ok ps =>
      rw [Add.pairs, hPieces, Traversal.mapM_cons_ok] at hPairs
      obtain ⟨p, more, hPair, -, rfl⟩ := hPairs
      rcases Add.pair_of_label h.label_solid h.rest_next with hMissing | ⟨value, hValue⟩
      · rw [hMissing] at hPair
        cases hPair
      · rw [hValue] at hPair
        obtain rfl := Except.ok.inj hPair
        exact Or.inr ⟨value, more, rfl⟩

namespace Handling

open Program (Follows)

variable {limits : Limits} {now : Instant} {message : Message}

/-- An insert is the work of an add, on the row of its pairs. -/
theorem row_of_insert {xs : List Exchange} {r : Except Failure Outcome}
    (h : Follows (handle limits now message) xs r) {x : Exchange} (hx : x ∈ xs)
    {table : Table} {values : RowValues} {sender : Text}
    (hInsert : x.request = .insert table values sender) :
    ∃ shortcuts, ⟨.shortcuts, .ok shortcuts⟩ ∈ xs ∧
      Command.mode (Handling.command limits message shortcuts) = .ok .add ∧
      Add.row now table (commandArguments (Handling.command limits message shortcuts)) =
        .ok values := by
  have hNot : ¬ x.request.Prepares := by
    rw [hInsert]
    exact id
  obtain ⟨shortcuts, found, mode, ys, q, hMode, rfl, hx, hWork⟩ :=
    working_of_not_prepares h hx hNot
  refine ⟨shortcuts, by simp [admission, lookup], ?_⟩
  cases hWork with
  | rowRefused | planRefused => exact absurd hx List.not_mem_nil
  | insertFailed values' hRow | inserted values' hRow =>
      rw [List.mem_singleton.mp hx] at hInsert
      obtain ⟨rfl, rfl, -⟩ := Request.insert.inj hInsert
      exact ⟨hMode, hRow⟩
  | selectFailed | replyRefused =>
      rw [List.mem_singleton.mp hx] at hInsert
      exact Request.noConfusion hInsert
  | sendFailed | responded =>
      rcases List.mem_pair.mp hx with rfl | rfl <;> exact Request.noConfusion hInsert

/-- **The pair that makes a message an add.**  Every trimmed command to add is a name,
blanks and a signed word.  If a space is the last of the blanks, the pairs are refused or
open with the label of that word; if another blank is, they are cut from what follows the
word.  Every insert of a handling has the row of the pairs of such a command, so with a
space it is never the row of no pair, nor of pairs without the first. -/
theorem pairs_agree_with_mode (limits : Limits) (now : Instant) (message : Message) :
    (∀ command, Text.trim command = command → Command.mode command = .ok .add →
      ∃ name gap label rest, OpensAdd command name gap label rest ∧
        Text.words command = name :: ('+' :: label) :: Text.words rest ∧
        (AfterSpace gap → Add.OpensWith label (commandArguments command)) ∧
        (¬ AfterSpace gap →
          ∃ rest', OpensAdd (Command.splitPassword command).1 name gap label rest' ∧
            Add.pieces (commandArguments command) = (Add.cutAtSigns rest').2)) ∧
    ∀ (σ : Type) (host : Host σ) (s : σ) (table : Table) (values : RowValues) (sender : Text),
      .insert table values sender ∈ ((handle limits now message).run host s).requests →
      ∃ shortcuts name gap label rest ps,
        ⟨.shortcuts, .ok shortcuts⟩ ∈ (handle limits now message).exchanges host s ∧
        OpensAdd (Handling.command limits message shortcuts) name gap label rest ∧
        Add.pairs (commandArguments (Handling.command limits message shortcuts)) = .ok ps ∧
        ps.foldlM (Add.put now table) [] = .ok values ∧
        (AfterSpace gap → ∃ value more, ps = (label, value) :: more) := by
  constructor
  · intro command hTrim hMode
    obtain ⟨name, gap, label, rest, hOpens, hWords⟩ := Command.exists_opensAdd hTrim hMode
    obtain ⟨rest', hOpens'⟩ := hOpens.splitPassword
    exact ⟨name, gap, label, rest, hOpens, hWords, hOpens'.opensWith,
      fun hBlank => ⟨rest', hOpens', hOpens'.pieces_arguments.2 hBlank⟩⟩
  · intro σ host s table values sender hMem
    rw [Program.requests_run, List.mem_map] at hMem
    obtain ⟨x, hx, hInsert⟩ := hMem
    obtain ⟨shortcuts, hShortcuts, hMode, hRow⟩ :=
      row_of_insert (Program.follows_run host _ s) hx hInsert
    obtain ⟨name, gap, label, rest, hOpens, -⟩ :=
      Command.exists_opensAdd (Shortcut.trim_expand shortcuts limits.shortcutDepth message.body)
        hMode
    obtain ⟨rest', hOpens'⟩ := hOpens.splitPassword
    unfold Add.row at hRow
    split at hRow
    · cases hRow
    · rename_i ps hPs
      refine ⟨shortcuts, name, gap, label, rest, ps, hShortcuts, hOpens, hPs, hRow, ?_⟩
      intro hSpace
      rcases hOpens'.opensWith hSpace with ⟨cause, hError⟩ | ⟨value, more, hOk⟩
      · exact absurd (hPs.symm.trans hError) (by simp)
      · exact ⟨value, more, Except.ok.inj (hPs.symm.trans hOk)⟩

/-! ### A space and a tab before the second word -/

/-- An open table with one column of text. -/
def shed : Table :=
  ⟨['s', 'h', 'e', 'd'], ['s', 'h', 'e', 'd'],
    [{ storageName := ['n'], displayName := ['N'], type := .text }], none⟩

/-- A command to add, with these blanks before its second word. -/
def shedCommand (gap : Text) : Text :=
  ['@', 's', 'h', 'e', 'd'] ++ gap ++ ['+', 'N', ' ', 'E', 'l', 'm']

/-- The handling of such a command. -/
def shedHandling (gap : Text) : Program Outcome :=
  handle {} (.midnight ⟨2024, 11, 5, by decide⟩) ⟨['7'], shedCommand gap⟩

/-- After two spaces the pair is found and inserted. -/
theorem pairs_agree_with_mode_shed :
    (Text.trim (shedCommand [' ', ' ']) = shedCommand [' ', ' '] ∧
      Command.mode (shedCommand [' ', ' ']) = .ok .add ∧
      Add.pairs (commandArguments (shedCommand [' ', ' '])) = .ok [(['N'], ['E', 'l', 'm'])] ∧
      ∃ name gap label rest, OpensAdd (shedCommand [' ', ' ']) name gap label rest ∧
        Text.words (shedCommand [' ', ' ']) = name :: ('+' :: label) :: Text.words rest ∧
        (AfterSpace gap → Add.OpensWith label (commandArguments (shedCommand [' ', ' ']))) ∧
        (¬ AfterSpace gap →
          ∃ rest',
            OpensAdd (Command.splitPassword (shedCommand [' ', ' '])).1 name gap label rest' ∧
            Add.pieces (commandArguments (shedCommand [' ', ' '])) =
              (Add.cutAtSigns rest').2)) ∧
    .insert shed [(['n'], ['E', 'l', 'm'])] ['7'] ∈
      ((shedHandling [' ', ' ']).run (Host.ofTable shed false []) ()).requests ∧
    ∃ shortcuts name gap label rest ps,
      ⟨.shortcuts, .ok shortcuts⟩ ∈
        (shedHandling [' ', ' ']).exchanges (Host.ofTable shed false []) () ∧
      OpensAdd (Shortcut.expand shortcuts 16 (shedCommand [' ', ' '])) name gap label rest ∧
      Add.pairs (commandArguments (Shortcut.expand shortcuts 16 (shedCommand [' ', ' ']))) =
        .ok ps ∧
      ps.foldlM (Add.put (.midnight ⟨2024, 11, 5, by decide⟩) shed) [] =
        .ok [(['n'], ['E', 'l', 'm'])] ∧
      (AfterSpace gap → ∃ value more, ps = (label, value) :: more) := by
  obtain ⟨hCommands, hInserts⟩ := pairs_agree_with_mode {} (.midnight ⟨2024, 11, 5, by decide⟩)
    ⟨['7'], shedCommand [' ', ' ']⟩
  have hMem : .insert shed [(['n'], ['E', 'l', 'm'])] ['7'] ∈
      ((shedHandling [' ', ' ']).run (Host.ofTable shed false []) ()).requests := by
    rw [show ((shedHandling [' ', ' ']).run (Host.ofTable shed false []) ()).requests =
      [.shortcuts, .findTable ['s', 'h', 'e', 'd'],
        .insert shed [(['n'], ['E', 'l', 'm'])] ['7']] from rfl]
    simp
  exact ⟨⟨rfl, rfl, rfl, hCommands _ rfl rfl⟩, hMem, hInserts Unit _ () shed _ _ hMem⟩

/-- After a space and a tab there is no pair, and an empty row is inserted. -/
theorem not_every_add_has_pair :
    (¬ ∀ command, Text.trim command = command → Command.mode command = .ok .add →
      ∃ name label words, Text.words command = name :: ('+' :: label) :: words ∧
        Add.OpensWith label (commandArguments command)) ∧
    ((shedHandling [' ', '\t']).run (Host.ofTable shed false []) ()).result =
      .ok (.inserted ['s', 'h', 'e', 'd'] []) := by
  refine ⟨fun hAlways => ?_, rfl⟩
  have hNone : Add.pairs (commandArguments (shedCommand [' ', '\t'])) = .ok [] := rfl
  obtain ⟨name, label, words, -, hOpens⟩ := hAlways (shedCommand [' ', '\t']) rfl rfl
  rcases hOpens with ⟨cause, hPairs⟩ | ⟨value, more, hPairs⟩
  · rw [hNone] at hPairs
    cases hPairs
  · rw [hNone] at hPairs
    cases hPairs

end Handling

end TableTalk
