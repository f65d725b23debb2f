import TableTalk.Command
import TableTalk.Proofs.Text.Words

/-!
# How a command is read

The name of a table and the arguments are cut at the first space of a command, the
password at the last.  What follows a command after its first space therefore changes
neither the name (`Command.targetName_append`) nor, once there are two words, the mode
(`Command.mode_append`), and a password at the end is taken off again without a trace
(`Command.splitPassword_append`).  `Command.splitPassword_cases` lists what can have been
taken off a text.
-/

namespace TableTalk.Command

variable {t name rest password : Text}

/-! ### The first space -/

theorem targetName_of_space (h : ' ' ∉ name) (rest : Text) :
    targetName (name ++ ' ' :: rest) = targetName name := by
  have hName : ∀ c ∈ name, (c != ' ') = true := by
    intro c hc
    rw [bne_iff_ne]
    rintro rfl
    exact h hc
  have hSelf : name.takeWhile (· != ' ') = name :=
    List.takeWhile_eq_self_iff.mpr hName
  unfold targetName
  rw [List.takeWhile_append_of_pos hName, hSelf]
  simp

/-- What follows the first space is not part of the name. -/
theorem targetName_append (h : ' ' ∈ t) (rest : Text) : targetName (t ++ rest) = targetName t := by
  obtain ⟨name, args, rfl, hName⟩ := List.eq_append_cons_of_mem h
  rw [List.append_assoc, List.cons_append, targetName_of_space hName, targetName_of_space hName]

theorem space_mem_of_isCommand (h : isCommand t = true) : ' ' ∈ t := by
  unfold isCommand at h
  split at h
  · exact List.mem_cons_of_mem _ (List.contains_iff_mem.mp h)
  · cases h

theorem exists_of_isCommand (h : isCommand t = true) : ∃ rest, t = '@' :: rest := by
  unfold isCommand at h
  split at h
  · exact ⟨_, rfl⟩
  · cases h

theorem isCommand_append (h : isCommand t = true) (rest : Text) :
    isCommand (t ++ rest) = true := by
  obtain ⟨t, rfl⟩ := exists_of_isCommand h
  simp only [isCommand, List.contains_iff_mem] at h
  simp [isCommand, h]

/-! ### Mode -/

/-- Once a command has two words, nothing that follows changes its mode. -/
theorem mode_append (h : 2 ≤ (Text.words t).length) (rest : Text) :
    mode (t ++ ' ' :: rest) = mode t := by
  unfold mode
  rw [Text.words_append_cons Text.isBlank_space]
  rcases hWords : Text.words t with _ | ⟨first, _ | ⟨second, words⟩⟩
  · simp [hWords] at h
  · simp [hWords] at h
  · rcases second with _ | ⟨c, label⟩
    · rfl
    · by_cases hc : c = '+'
      · rw [hc]
        rfl
      · simp [hc]

/-- A command to add has a second word with a plus sign. -/
theorem exists_of_mode_add (h : mode t = .ok .add) :
    ∃ name label words, Text.words t = name :: ('+' :: label) :: words := by
  unfold mode at h
  rcases hWords : Text.words t with _ | ⟨name, words⟩
  · simp [hWords] at h
  · rw [hWords, List.drop_one, List.tail_cons] at h
    split at h
    · cases h
    · exact ⟨name, _, _, rfl⟩
    · cases h

/-! ### Password -/

/-- A password as it stands at the end of a command. -/
def passwordTail (password : Text) : Text :=
  ' ' :: '#' :: password

/-- The password at the end of a command is taken off, with the blanks before it. -/
theorem splitPassword_append (hPassword : ' ' ∉ password) (hSome : password ≠ []) (t : Text) :
    splitPassword (t ++ passwordTail password) = (Text.trimEnd t, password) := by
  obtain ⟨c, password, rfl⟩ := List.exists_cons_of_ne_nil hSome
  have hCut : Text.cutAtLast (· == ' ') (t ++ passwordTail (c :: password)) =
      some (t, '#' :: c :: password) := by
    apply Text.cutAtLast_append_cons rfl
    intro x hx
    rw [beq_eq_false_iff_ne]
    rintro rfl
    rcases List.mem_cons.mp hx with hx | hx
    · exact absurd hx (by decide)
    · exact hPassword hx
  rw [splitPassword, hCut]
  rfl

/-- A command has no password, or it ends in the one that is taken off. -/
theorem splitPassword_cases (t : Text) :
    splitPassword t = (t, []) ∨
      ∃ body password, t = body ++ passwordTail password ∧ password ≠ [] ∧ ' ' ∉ password ∧
        splitPassword t = (Text.trimEnd body, password) := by
  unfold splitPassword
  split
  · rename_i body c password hCut
    obtain ⟨x, hx, rfl, hLast⟩ := Text.exists_of_cutAtLast hCut
    obtain rfl : x = ' ' := beq_iff_eq.mp hx
    refine Or.inr ⟨body, c :: password, rfl, List.cons_ne_nil _ _, fun hSpace => ?_, rfl⟩
    have hNone := hLast ' ' (List.mem_cons_of_mem _ hSpace)
    simp at hNone
  · exact Or.inl rfl

end TableTalk.Command
