import Mathlib.Data.List.Basic
import TableTalk.Add
import TableTalk.Proofs.Command.Reading
import TableTalk.Proofs.Text.Marked

/-!
# The word that makes a command an add, and the pairs that are cut from it

A command is an add because its second word opens with a plus sign, whatever blanks stand
before that word.  Its arguments are then cut into pairs at plus signs that follow a
space.  The two agree on the second word when the blank right before it is a space, and
only then (`Command.OpensAdd.pieces_arguments`): the word opens the first piece, or it is
passed over with all that stands before the next sign.

A password at the end is taken off in between.  It never reaches back to the second word,
because it follows a space and opens with a number sign (`Command.OpensAdd.splitPassword`).
-/

namespace TableTalk

open Text (Blank Solid BlankNext)

/-! ### Cutting at signs -/

namespace Add

variable {s t label rest : Text}

/-- The one mark of pairs. -/
def sign? (c : Char) : Option Unit :=
  if c = '+' then some () else none

theorem sign?_eq_none_iff {c : Char} : sign? c = none ↔ c ≠ '+' := by
  simp [sign?]

/-- Signs are cut at as marks are. -/
theorem cutAtSigns_eq (t : Text) :
    cutAtSigns t = ((Text.cutAtMarks sign? t).1, (Text.cutAtMarks sign? t).2.map Prod.snd) := by
  fun_induction cutAtSigns t with
  | case1 t first rest hRest ih =>
      rw [Text.cutAtMarks_mark (m := ()) rfl, ← (Prod.mk.inj (hRest.symm.trans ih)).1,
        List.map_cons, ← (Prod.mk.inj (hRest.symm.trans ih)).2]
  | case2 c t hNone first rest hRest ih =>
      have hHere : c = ' ' → ∀ d ∈ t.head?, sign? d = none := by
        rintro rfl d hd
        rw [sign?_eq_none_iff]
        rintro rfl
        obtain ⟨t', rfl⟩ := List.head?_eq_some_iff.mp hd
        exact hNone t' rfl rfl
      rw [Text.cutAtMarks_cons hHere, ← (Prod.mk.inj (hRest.symm.trans ih)).1,
        ← (Prod.mk.inj (hRest.symm.trans ih)).2]
  | case3 => rfl

/-- Cutting passes over a text in which no plus sign follows a space, the place where it
meets the rest included. -/
theorem cutAtSigns_append (h : ∀ u v, s = u ++ ' ' :: v → (v ++ t).head? ≠ some '+') :
    cutAtSigns (s ++ t) = (s ++ (cutAtSigns t).1, (cutAtSigns t).2) := by
  have hNone : ∀ u v, s = u ++ ' ' :: v → ∀ d ∈ (v ++ t).head?, sign? d = none := by
    intro u v hs d hd
    rw [sign?_eq_none_iff]
    rintro rfl
    exact h u v hs hd
  rw [cutAtSigns_eq, cutAtSigns_eq, Text.cutAtMarks_append hNone]

theorem cutAtSigns_sign (t : Text) :
    cutAtSigns (' ' :: '+' :: t) = ([], (cutAtSigns t).1 :: (cutAtSigns t).2) := by
  rw [cutAtSigns]

theorem cutAtSigns_solid (hs : ' ' ∉ s) (t : Text) :
    cutAtSigns (s ++ t) = (s ++ (cutAtSigns t).1, (cutAtSigns t).2) := by
  apply cutAtSigns_append
  rintro u v rfl
  exact absurd (by simp) hs

/-- What stands before the first sign opens as the whole text does. -/
theorem head_cutAtSigns (t : Text) : ∀ c ∈ (cutAtSigns t).1.head?, c ∈ t.head? := by
  fun_cases cutAtSigns t <;> simp_all

/-- The pieces of arguments are what is cut off the command at its signs. -/
theorem pieces_arguments (t : Text) :
    pieces (Command.arguments t) = (cutAtSigns t).2 := by
  have hName : ' ' ∉ t.takeWhile (· != ' ') := by
    intro hMem
    simpa using List.mem_takeWhile_imp hMem
  have hCut : (cutAtSigns t).2 = (cutAtSigns (Command.arguments t)).2 := by
    conv_lhs => rw [← List.takeWhile_append_dropWhile (p := (· != ' ')) (l := t)]
    rw [cutAtSigns_solid hName, Command.arguments]
  have hOpen : ∀ first, (cutAtSigns (Command.arguments t)).1 ≠ '+' :: first := by
    intro first hFirst
    have hHead := head_cutAtSigns (Command.arguments t) '+' (by rw [hFirst]; rfl)
    have hStop := List.head?_dropWhile_not (· != ' ') t
    rw [← Command.arguments, Option.mem_def.mp hHead] at hStop
    simp at hStop
  rw [hCut, pieces]
  split
  · rename_i first rest hParts
    exact absurd (congrArg Prod.fst hParts) (hOpen first)
  · rename_i rest hParts
    rw [hParts]

/-- The piece that a label opens has the label before its first blank, or nothing else. -/
theorem pair_of_label (hLabel : Solid label) (hRest : BlankNext rest) :
    pair (label ++ (cutAtSigns rest).1) = .error (.missingValue (Text.trim label)) ∨
      ∃ value, pair (label ++ (cutAtSigns rest).1) = .ok (label, value) := by
  rcases hValue : (cutAtSigns rest).1 with _ | ⟨c, value⟩
  · refine Or.inl ?_
    rw [List.append_nil, pair, Text.cutAt_eq_none_iff.mpr hLabel]
  · have hc : Text.isBlank c = true :=
      hRest c (head_cutAtSigns rest c (by rw [hValue]; rfl))
    refine Or.inr ⟨Text.trim value, ?_⟩
    rw [pair, Text.cutAt_append_cons hLabel hc]

end Add

/-! ### The second word -/

namespace Command

/-- The command is a name, blanks, a word that opens with a plus sign, and the rest. -/
structure OpensAdd (command name gap label rest : Text) : Prop where
  eq : command = name ++ (gap ++ '+' :: (label ++ rest))
  name_solid : Solid name
  name_ne_nil : name ≠ []
  gap_blank : Blank gap
  gap_ne_nil : gap ≠ []
  label_solid : Solid label
  rest_next : BlankNext rest

/-- The second word of a command follows a space. -/
def AfterSpace (gap : Text) : Prop :=
  gap.getLast? = some ' '

variable {command name gap label rest : Text}

theorem isBlank_sign : Text.isBlank '+' = false := rfl

theorem solid_signed (h : Solid label) : Solid ('+' :: label) := by
  simpa [Solid, isBlank_sign] using h

/-- Every trimmed command to add has this form. -/
theorem exists_opensAdd (hTrim : Text.trim command = command) (hMode : mode command = .ok .add) :
    ∃ name gap label rest, OpensAdd command name gap label rest ∧
      Text.words command = name :: ('+' :: label) :: Text.words rest := by
  obtain ⟨name, label, words, hWords⟩ := exists_of_mode_add hMode
  obtain ⟨lead, tail, hCommand, hLead, hName, hSome, hTail, hTailWords⟩ :=
    Text.exists_of_words_cons hWords
  obtain ⟨gap, rest, rfl, hGap, hWord, -, hRest, rfl⟩ := Text.exists_of_words_cons hTailWords
  have hGapSome : gap ≠ [] := by
    rintro rfl
    have hSign : Text.isBlank '+' = true := hTail '+' rfl
    rw [isBlank_sign] at hSign
    cases hSign
  -- A trimmed text has no blanks before its first word.
  have hLeadNil : lead = [] := by
    rcases lead with _ | ⟨c, lead⟩
    · rfl
    · have hc : Text.isBlank c = true := hLead c List.mem_cons_self
      rcases Text.trim_cases command with hNil | ⟨d, r, hd, hCons⟩
      · rw [hTrim, hCommand] at hNil
        cases hNil
      · rw [hTrim, hCommand] at hCons
        obtain rfl := (List.cons.inj hCons).1
        rw [hc] at hd
        cases hd
  subst hLeadNil
  have hLabel : Solid label := fun c hc => hWord c (List.mem_cons_of_mem _ hc)
  exact ⟨name, gap, label, rest, ⟨hCommand, hName, hSome, hGap, hGapSome, hLabel, hRest⟩, hWords⟩

/-- Taking the password off leaves the second word and all before it. -/
theorem OpensAdd.splitPassword (h : OpensAdd command name gap label rest) :
    ∃ rest', OpensAdd (splitPassword command).1 name gap label rest' := by
  rcases splitPassword_cases command with hNone | ⟨body, password, hCommand, -, hSpace, hSplit⟩
  · rw [hNone]
    exact ⟨rest, h⟩
  rw [h.eq, ← List.append_assoc] at hCommand
  rcases Text.cases_of_append_eq hCommand with ⟨d, hFront, hTail⟩ | ⟨d, hBody, hWord⟩
  · -- The space before the password is not before the second word: no `#` follows it there.
    rcases d with _ | ⟨x, d⟩
    · cases hTail
    obtain rfl := (List.cons.inj hTail).1
    rcases Text.cases_of_append_eq hFront with ⟨e, rfl, -⟩ | ⟨e, -, rfl⟩
    · exact absurd (by simp) h.name_solid.space_not_mem
    · exact absurd (by simp) (h.gap_blank.not_mem (by decide : Text.isBlank '#' = false))
  · rw [← List.cons_append] at hWord
    rcases Text.cases_of_append_eq hWord with ⟨e, hLabel, -⟩ | ⟨rest', rfl, hRest⟩
    · exact absurd (by simp [hLabel]) (solid_signed h.label_solid).space_not_mem
    · have hNext : BlankNext rest' := by
        have hRestNext := h.rest_next
        rw [hRest] at hRestNext
        exact hRestNext.of_append
      have hTrimmed : BlankNext (Text.trimEnd rest') := by
        obtain ⟨blanks, -, hSplitEnd⟩ := Text.exists_trimEnd rest'
        rw [hSplitEnd] at hNext
        exact hNext.of_append
      refine ⟨Text.trimEnd rest', ?_, h.name_solid, h.name_ne_nil, h.gap_blank, h.gap_ne_nil,
        h.label_solid, hTrimmed⟩
      rw [hSplit, hBody]
      simp only [List.append_assoc, List.cons_append]
      rw [← List.append_assoc, Text.trimEnd_append_cons isBlank_sign,
        Text.trimEnd_append_of_solid h.label_solid, List.append_assoc]

/-- What follows a space before the second word is blank. -/
theorem blank_of_append_eq (hName : Solid name) (hGap : Blank gap) {u v : Text}
    (h : name ++ gap = u ++ ' ' :: v) : Blank v := by
  rcases Text.cases_of_append_eq h with ⟨e, rfl, -⟩ | ⟨e, -, rfl⟩
  · exact absurd (by simp) hName.space_not_mem
  · intro c hc
    exact hGap c (by simp [hc])

theorem head_ne_sign (h : Blank gap) (hSome : gap ≠ []) (t : Text) :
    (gap ++ t).head? ≠ some '+' := by
  obtain ⟨c, gap, rfl⟩ := List.exists_cons_of_ne_nil hSome
  rintro hHead
  obtain rfl : c = '+' := by simpa using hHead
  have hSign : Text.isBlank '+' = true := h '+' List.mem_cons_self
  rw [isBlank_sign] at hSign
  cases hSign

/-- The second word opens the first piece if it follows a space, and none otherwise. -/
theorem OpensAdd.pieces_arguments (h : OpensAdd command name gap label rest) :
    (AfterSpace gap → Add.pieces (arguments command) =
      (label ++ (Add.cutAtSigns rest).1) :: (Add.cutAtSigns rest).2) ∧
    (¬ AfterSpace gap → Add.pieces (arguments command) = (Add.cutAtSigns rest).2) := by
  rw [Add.pieces_arguments, h.eq]
  rcases List.eq_nil_or_concat' gap with hNil | ⟨blanks, c, rfl⟩
  · exact absurd hNil h.gap_ne_nil
  have hLast : AfterSpace (blanks ++ [c]) ↔ c = ' ' := by
    simp [AfterSpace]
  rw [hLast]
  constructor
  · rintro rfl
    have hBlanks : Blank blanks := fun x hx => h.gap_blank x (List.mem_append_left _ hx)
    have hFront : ∀ u v, name ++ blanks = u ++ ' ' :: v →
        (v ++ ' ' :: '+' :: (label ++ rest)).head? ≠ some '+' := by
      intro u v hSplit
      by_cases hv : v = []
      · simp [hv]
      · exact head_ne_sign (blank_of_append_eq h.name_solid hBlanks hSplit) hv _
    have hCut := Add.cutAtSigns_append hFront
    rw [Add.cutAtSigns_sign, Add.cutAtSigns_solid h.label_solid.space_not_mem] at hCut
    simpa using congrArg Prod.snd hCut
  · intro hc
    have hFront : ∀ u v, name ++ (blanks ++ [c]) ++ '+' :: label = u ++ ' ' :: v →
        (v ++ rest).head? ≠ some '+' := by
      intro u v hSplit
      rcases Text.cases_of_append_eq hSplit with ⟨d, hGap, rfl⟩ | ⟨d, -, hWord⟩
      · have hd : d ≠ [] := by
          rintro rfl
          have hEnd := congrArg List.getLast? hGap
          simp at hEnd
          exact hc hEnd
        rw [List.append_assoc]
        exact head_ne_sign (blank_of_append_eq h.name_solid h.gap_blank hGap) hd _
      · exact absurd (by simp [hWord]) (solid_signed h.label_solid).space_not_mem
    have hCut := Add.cutAtSigns_append hFront
    simpa using congrArg Prod.snd hCut

end Command

end TableTalk
