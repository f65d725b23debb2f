import TableTalk.Proofs.Shortcut.Patterns
import TableTalk.Proofs.Traversal

/-!
# Expanding a message with a password at its end

Shortcuts are expanded while the password is still part of the message, so what becomes of
it is up to their patterns.  This module follows a message and the same message with a
password through the expansion side by side.

As long as every shortcut met on the way keeps its last key at the end of its output, or
drops it, and gives a command with the password only where it gives one without
(`Shortcut.PasswordStays`), the two expansions stay in step.  They end alike, or in one
text and the same text with the password after it (`Shortcut.expand_upToPassword`).  One
step keeps this relation (`step?_upToPassword`), and the whole expansion by induction on
the steps that are left.
-/

namespace TableTalk

open Text (Blank Solid)

namespace Command

/-- The second text is the first one, or the first one with the password after it. -/
inductive UpToPassword (password t : Text) : Text → Prop
  | same : UpToPassword password t t
  | added (gap : Text) (hGap : Blank gap) :
      UpToPassword password t (t ++ (gap ++ passwordTail password))

variable {t gap password : Text}

/-- A trimmed command keeps the password that follows it, with the blanks before it. -/
theorem trim_withPassword (ht : isCommand t = true) (hGap : Blank gap) (hSolid : Solid password) :
    ∃ gap', Blank gap' ∧
      Text.trim (t ++ (gap ++ passwordTail password)) =
        Text.trim t ++ (gap' ++ passwordTail password) := by
  obtain ⟨rest, rfl⟩ := exists_of_isCommand ht
  obtain ⟨blanks, hBlanks, hRest⟩ := Text.exists_trimEnd rest
  have hTail : Text.trimEnd (rest ++ (gap ++ passwordTail password)) =
      rest ++ (gap ++ passwordTail password) := by
    have hSign := Text.trimEnd_append_cons (by decide : Text.isBlank '#' = false)
      (rest ++ (gap ++ [' '])) password
    rw [Text.trimEnd_of_solid hSolid] at hSign
    simpa [passwordTail] using hSign
  refine ⟨blanks ++ gap, hBlanks.append hGap, ?_⟩
  rw [List.cons_append, Text.trim_cons rfl, Text.trim_cons rfl, hTail, List.cons_append,
    List.append_assoc, ← List.append_assoc _ blanks, ← hRest]

end Command

namespace Shortcut

open Command (UpToPassword passwordTail)

variable {shortcuts : List Shortcut} {s : Shortcut} {start t u password : Text}

/-! ### Steps -/

/-- The command a shortcut makes of a message. -/
def command? (s : Shortcut) (message : Text) : Option Text :=
  (s.applyTo? message).filter Command.isCommand

theorem command?_eq_some_iff :
    s.command? t = some u ↔ s.applyTo? t = some u ∧ Command.isCommand u = true :=
  Option.filter_eq_some_iff

theorem step?_eq (shortcuts : List Shortcut) (message : Text) :
    step? shortcuts message = shortcuts.findSome? fun s =>
      if s.name = Command.targetName message then (s.command? message).map Text.trim
      else none := by
  unfold step? command?
  congr
  funext s
  split
  · cases s.applyTo? message with
    | none => rfl
    | some next => by_cases hNext : Command.isCommand next = true <;> simp [Option.filter, hNext]
  · rfl

/-- A step ends in a trimmed text. -/
theorem trim_of_step? (h : step? shortcuts t = some u) : Text.trim u = u := by
  rw [step?_eq, List.findSome?_eq_some_iff] at h
  obtain ⟨-, s, -, -, hStep, -⟩ := h
  split at hStep
  · obtain ⟨next, -, rfl⟩ := Option.map_eq_some_iff.mp hStep
    exact Text.trim_trim next
  · cases hStep

/-- The texts a message can become by steps, whatever names are used up. -/
inductive Reaches (shortcuts : List Shortcut) (start : Text) : Text → Prop
  | start : Reaches shortcuts start start
  | step {t u : Text} (hReach : Reaches shortcuts start t) (hStep : step? shortcuts t = some u) :
      Reaches shortcuts start u

theorem reaches_expandFrom (limit : Nat) (used : List Text) (h : Reaches shortcuts start t) :
    Reaches shortcuts start (expandFrom shortcuts limit used t) := by
  induction limit generalizing used t with
  | zero => exact h
  | succ limit ih =>
      rw [expandFrom]
      split
      · exact h
      · split
        · rename_i next hStep
          exact ih _ (.step h hStep)
        · exact h

/-- What a message expands to is on its way. -/
theorem reaches_expand (shortcuts : List Shortcut) (depth : Nat) (message : Text) :
    Reaches shortcuts (Text.trim message) (expand shortcuts depth message) :=
  reaches_expandFrom _ _ .start

theorem Reaches.trim_eq (h : Reaches shortcuts start t) (hStart : Text.trim start = start) :
    Text.trim t = t := by
  cases h with
  | start => exact hStart
  | step _ hStep => exact trim_of_step? hStep

/-- An expanded message is trimmed. -/
theorem trim_expand (shortcuts : List Shortcut) (depth : Nat) (message : Text) :
    Text.trim (expand shortcuts depth message) = expand shortcuts depth message :=
  (reaches_expand shortcuts depth message).trim_eq (Text.trim_trim message)

/-! ### With a password -/

/-- The shortcuts of the name of a text leave a password at its end in that place, or
drop it. -/
structure PasswordStaysAt (shortcuts : List Shortcut) (password t : Text) : Prop where
  isCommand : Command.isCommand t = true
  keepsLast : ∀ s ∈ shortcuts, s.name = Command.targetName t → ∃ key, s.KeepsLast key
  /-- The password does not make a shortcut give a command that gives none without it. -/
  command?_eq_none : ∀ s ∈ shortcuts, s.name = Command.targetName t → s.command? t = none →
    ∀ gap, Blank gap → s.command? (t ++ (gap ++ passwordTail password)) = none

/-- So do the shortcuts of every text on the way. -/
def PasswordStays (shortcuts : List Shortcut) (password start : Text) : Prop :=
  ∀ t, Reaches shortcuts start t → PasswordStaysAt shortcuts password t

/-- A shortcut makes of a message with a password what it makes of the message, up to the
password. -/
theorem command?_upToPassword {key gap : Text} (hs : s.KeepsLast key) (hGap : Blank gap)
    (hSolid : Solid password) (h : s.command? t = some u) :
    ∃ u', (s.command? (t ++ (gap ++ passwordTail password))).map Text.trim = some u' ∧
      UpToPassword password (Text.trim u) u' := by
  obtain ⟨hApply, hCommand⟩ := command?_eq_some_iff.mp h
  rcases applyTo?_append hs hApply (gap ++ passwordTail password) with hDropped | hAdded
  · refine ⟨Text.trim u, ?_, .same⟩
    rw [command?_eq_some_iff.mpr ⟨hDropped, hCommand⟩, Option.map_some]
  · obtain ⟨gap', hGap', hTrim⟩ := Command.trim_withPassword hCommand hGap hSolid
    refine ⟨Text.trim u ++ (gap' ++ passwordTail password), ?_, .added gap' hGap'⟩
    rw [command?_eq_some_iff.mpr ⟨hAdded, Command.isCommand_append hCommand _⟩,
      Option.map_some, hTrim]

/-- A step from a message with a password keeps up with the step from the message. -/
theorem step?_upToPassword {gap : Text} (ht : PasswordStaysAt shortcuts password t)
    (hGap : Blank gap) (hSolid : Solid password) :
    (step? shortcuts t = none → step? shortcuts (t ++ (gap ++ passwordTail password)) = none) ∧
      ∀ u, step? shortcuts t = some u →
        ∃ u', step? shortcuts (t ++ (gap ++ passwordTail password)) = some u' ∧
          UpToPassword password u u' := by
  rw [step?_eq, step?_eq,
    Command.targetName_append (Command.space_mem_of_isCommand ht.isCommand)]
  apply Traversal.findSome?_rel
  · intro s hMem hNone
    by_cases hName : s.name = Command.targetName t
    · rw [if_pos hName] at hNone ⊢
      rw [Option.map_eq_none_iff] at hNone ⊢
      exact ht.command?_eq_none s hMem hName hNone gap hGap
    · rw [if_neg hName]
  · intro s hMem u hSome
    by_cases hName : s.name = Command.targetName t
    · rw [if_pos hName] at hSome ⊢
      obtain ⟨next, hNext, rfl⟩ := Option.map_eq_some_iff.mp hSome
      obtain ⟨key, hKeeps⟩ := ht.keepsLast s hMem hName
      exact command?_upToPassword hKeeps hGap hSolid hNext
    · rw [if_neg hName] at hSome
      cases hSome

theorem expandFrom_upToPassword {t' : Text} (hStays : PasswordStays shortcuts password start)
    (hSolid : Solid password) (limit : Nat) (used : List Text)
    (hReach : Reaches shortcuts start t) (hUp : UpToPassword password t t') :
    UpToPassword password (expandFrom shortcuts limit used t)
      (expandFrom shortcuts limit used t') := by
  induction limit generalizing used t t' with
  | zero => exact hUp
  | succ limit ih =>
      cases hUp with
      | same => exact .same
      | added gap hGap =>
          have ht := hStays t hReach
          obtain ⟨hNone, hSome⟩ := step?_upToPassword ht hGap hSolid
          -- Both texts have the same name, so it is used up for both or for neither.
          rw [expandFrom, expandFrom,
            Command.targetName_append (Command.space_mem_of_isCommand ht.isCommand)]
          split
          · exact .added gap hGap
          · cases hStep : step? shortcuts t with
            | none =>
                rw [hNone hStep]
                exact .added gap hGap
            | some u =>
                obtain ⟨u', hStep', hUp'⟩ := hSome u hStep
                rw [hStep']
                exact ih _ (.step hReach hStep) hUp'

/-- A message with a password expands to what the message expands to, up to the password. -/
theorem expand_upToPassword {body : Text} (hBody : Command.isCommand body = true)
    (hSolid : Solid password) (hStays : PasswordStays shortcuts password (Text.trim body))
    (depth : Nat) :
    UpToPassword password (expand shortcuts depth body)
      (expand shortcuts depth (body ++ passwordTail password)) := by
  have hNoGap : Blank [] := by simp [Blank]
  obtain ⟨gap, hGap, hTrim⟩ := Command.trim_withPassword hBody hNoGap hSolid
  rw [List.nil_append] at hTrim
  unfold expand
  rw [hTrim]
  exact expandFrom_upToPassword hStays hSolid _ _ .start (.added gap hGap)

end Shortcut

end TableTalk
