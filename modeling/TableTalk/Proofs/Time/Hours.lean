import Mathlib.Data.List.Basic
import TableTalk.Proofs.Time.RoundTrip

/-!
# Short fields and the hour of a text

A month, a day and an hour are typed as a number of one digit or two (`Field.IsShort`).  A reader
takes such a number as a whole if no other digit follows.

An hour stands at the end of its text, perhaps with the letters of a half of the day after it, and
is read backwards.  `Typed.IsHour` says what its text is made of, in the order of the text: what
stands before the hour, blanks, the digits and the tail.  `Typed.exists_isHour` and
`Typed.splitHour?_of_isHour` say that these are the texts with an hour, and that its parts are
read.
-/

namespace TableTalk

/-! ### Fields of one or two digits -/

theorem toNat_le_of_isDigit {c : Char} (h : c.isDigit = true) : c.toNat ≤ 57 := by
  simp only [Char.isDigit, Bool.and_eq_true, decide_eq_true_eq] at h
  exact h.2

theorem Text.solid_of_digits {t : Text} (h : ∀ c ∈ t, c.isDigit = true) : Solid t :=
  fun c hc => isBlank_eq_false_of_isDigit (h c hc)

namespace Field

variable {digits rest : Text} {width : Nat}

theorem DigitsEnd.of_blankNext (h : Text.BlankNext rest) : DigitsEnd rest := by
  intro c hc
  by_contra hDigit
  have hSolid := Text.isBlank_eq_false_of_isDigit (eq_true_of_ne_false hDigit)
  rw [h c hc] at hSolid
  cases hSolid

theorem DigitsEnd.take (h : DigitsEnd rest) (n : Nat) : DigitsEnd (rest.take n) := by
  rcases rest with _ | ⟨c, rest⟩
  · rwa [List.take_nil]
  · rcases n with _ | n
    · intro c hc
      cases hc
    · exact h

/-- A blank is no separator. -/
theorem char?_of_blankNext {c : Char} (hc : Text.isBlank c = false) (h : Text.BlankNext rest) :
    char? c rest = none := by
  rcases rest with _ | ⟨x, rest⟩
  · rfl
  · rw [char?, if_neg]
    rintro rfl
    rw [h x rfl] at hc
    cases hc

/-- Digits that fit the width are read as a whole, if no other digit comes next. -/
theorem digitsUpTo?_append_of_le (hDigits : ∀ c ∈ digits, c.isDigit = true)
    (hSome : digits ≠ []) (hLe : digits.length ≤ width) (hNext : DigitsEnd rest) :
    digitsUpTo? width (digits ++ rest) = some (Nat.ofDigitChars 10 digits 0, rest) := by
  unfold digitsUpTo?
  rw [List.take_append, List.take_of_length_le hLe, (hNext.take _).takeWhile_append hDigits]
  simp [hSome]

/-- A number of one digit or two. -/
structure IsShort (digits : Text) : Prop where
  length : digits.length = 1 ∨ digits.length = 2
  isDigit : ∀ c ∈ digits, c.isDigit = true

namespace IsShort

variable (h : IsShort digits)
include h

theorem exists_cons : ∃ c more, c.isDigit = true ∧ digits = c :: more := by
  rcases digits with _ | ⟨c, more⟩
  · have hLength := h.length
    simp at hLength
  · exact ⟨c, more, h.isDigit c List.mem_cons_self, rfl⟩

theorem digitsUpTo?_append (hWidth : 2 ≤ width) (hNext : DigitsEnd rest) :
    digitsUpTo? width (digits ++ rest) = some (Nat.ofDigitChars 10 digits 0, rest) := by
  obtain ⟨c, more, -, rfl⟩ := h.exists_cons
  have hLength := h.length
  exact digitsUpTo?_append_of_le h.isDigit (List.cons_ne_nil c more) (by omega) hNext

theorem skipBlanks_append (rest : Text) : Text.skipBlanks (digits ++ rest) = digits ++ rest := by
  obtain ⟨c, more, hc, rfl⟩ := h.exists_cons
  exact Text.skipBlanks_cons (Text.isBlank_eq_false_of_isDigit hc) _

theorem number?_append (hNext : DigitsEnd rest) :
    number? 2 (digits ++ rest) = some (Nat.ofDigitChars 10 digits 0, rest) := by
  unfold number?
  rw [h.skipBlanks_append, h.digitsUpTo?_append (le_refl 2) hNext]

theorem year?_append (hNext : DigitsEnd rest) :
    year? (digits ++ rest) = some ((Nat.ofDigitChars 10 digits 0 : Int), rest) := by
  have hRead := h.digitsUpTo?_append (by decide : 2 ≤ 4) hNext
  obtain ⟨c, more, hc, rfl⟩ := h.exists_cons
  exact (year?_of_isDigit hc).trans (congrArg (Option.map _) hRead)

theorem dayOrMonth?_append (hNext : DigitsEnd rest) :
    Typed.dayOrMonth? (digits ++ rest) = some (digits, rest) := by
  rcases h.length with hOne | hTwo
  · obtain ⟨a, rfl⟩ := List.length_eq_one_iff.mp hOne
    have ha := h.isDigit a List.mem_cons_self
    rcases rest with _ | ⟨b, rest⟩
    · simp [Typed.dayOrMonth?, ha]
    · simp [Typed.dayOrMonth?, ha, hNext b rfl]
  · obtain ⟨a, b, rfl⟩ := List.length_eq_two.mp hTwo
    have ha := h.isDigit a List.mem_cons_self
    have hb := h.isDigit b (List.mem_cons_of_mem a List.mem_cons_self)
    simp [Typed.dayOrMonth?, ha, hb]

end IsShort

end Field

/-! ### The hour at the end of a text -/

namespace Typed

open Text (Blank)

variable {t tail before : Text} {hour : ℕ} {half : Option Field.Meridiem}

/-- What stands after an hour: nothing, or the letters of a half of the day after blanks. -/
inductive HourTail : Option Field.Meridiem → Text → Prop
  | plain : HourTail none []
  | half {gap : Text} {a m : Char} {half : Field.Meridiem} (hGap : Blank gap)
      (hLetters : Field.Meridiem.ofLetters? a m = some half) : HourTail (some half) (gap ++ [a, m])

/-- The letters of a half of the day are taken off with the blanks before them. -/
theorem trailingMeridiem_cases (backwards : Text) :
    (∃ m a rest half, backwards = m :: a :: rest ∧
      Field.Meridiem.ofLetters? a m = some half ∧
      trailingMeridiem backwards = (some half, Text.skipBlanks rest)) ∨
    trailingMeridiem backwards = (none, backwards) := by
  unfold trailingMeridiem
  split
  · rename_i m a rest
    split
    · rename_i half hHalf
      exact Or.inl ⟨m, a, rest, half, rfl, hHalf, rfl⟩
    · exact Or.inr rfl
  · exact Or.inr rfl

/-- Backwards, a text is what the letters of the half have been taken off, and its tail. -/
theorem exists_hourTail {backwards : Text} (h : trailingMeridiem t.reverse = (half, backwards)) :
    ∃ tail, t = backwards.reverse ++ tail ∧ HourTail half tail := by
  rcases trailingMeridiem_cases t.reverse with ⟨m, a, rest, half', hText, hLetters, hTaken⟩ | hNone
  · rw [hTaken] at h
    obtain ⟨rfl, rfl⟩ := Prod.mk.inj h
    refine ⟨(rest.takeWhile Text.isBlank).reverse ++ [a, m], ?_, .half (fun c hc => ?_) hLetters⟩
    · calc t = (m :: a :: rest).reverse := by rw [← hText, List.reverse_reverse]
        _ = (Text.skipBlanks rest).reverse ++
            ((rest.takeWhile Text.isBlank).reverse ++ [a, m]) := by
          rw [← List.append_assoc, Text.skipBlanks, ← List.reverse_append,
            List.takeWhile_append_dropWhile]
          simp
    · exact List.mem_takeWhile_imp (List.mem_reverse.mp hc)
  · rw [hNone] at h
    obtain ⟨rfl, rfl⟩ := Prod.mk.inj h
    exact ⟨[], by simp, .plain⟩

/-- The text of an hour: what stands before it, blanks, the digits and the tail. -/
structure IsHour (before digits : Text) (half : Option Field.Meridiem) (t : Text) : Prop where
  ne_nil : before ≠ []
  trimEnd_eq : Text.trimEnd before = before
  not_mem : '\n' ∉ before
  short : Field.IsShort digits
  exists_parts : ∃ gap tail, Blank gap ∧ gap ≠ [] ∧ HourTail half tail ∧
    t = before ++ (gap ++ (digits ++ tail))

theorem exists_isHour (h : splitHour? t = some (before, hour, half)) :
    ∃ digits, IsHour before digits half t ∧ hour = Nat.ofDigitChars 10 digits 0 := by
  unfold splitHour? at h
  rcases hTail : trailingMeridiem t.reverse with ⟨half', backwards⟩
  obtain ⟨tail, ht, hHour⟩ := exists_hourTail hTail
  rw [hTail] at h
  dsimp only at h
  split at h
  · rename_i hLength
    split at h
    · rename_i c rest hBlanks
      split at h
      · rename_i hCheck
        simp only [Bool.and_eq_true, Bool.not_eq_true', List.isEmpty_eq_false_iff,
          List.contains_eq_mem, decide_eq_false_iff_not] at hCheck
        obtain ⟨⟨hc, hSome⟩, hLine⟩ := hCheck
        simp only [Option.some.injEq, Prod.mk.injEq] at h
        obtain ⟨rfl, rfl, rfl⟩ := h
        rw [hBlanks] at hSome hLine ⊢
        set digits := backwards.takeWhile Char.isDigit with hDigits
        have hTrim : Text.trimEnd (Text.skipBlanks (c :: rest)).reverse =
            (Text.skipBlanks (c :: rest)).reverse := by
          rw [Text.trimEnd, List.reverse_reverse]
          exact congrArg List.reverse (Text.skipBlanks_skipBlanks _)
        refine ⟨digits.reverse, ⟨hSome, hTrim, hLine, ⟨by simpa using hLength, fun x hx => ?_⟩,
          ((c :: rest).takeWhile Text.isBlank).reverse, tail, fun x hx => ?_, by simp [hc], hHour,
          ?_⟩, rfl⟩
        · exact List.mem_takeWhile_imp (List.mem_reverse.mp hx)
        · exact List.mem_takeWhile_imp (List.mem_reverse.mp hx)
        · have hTaken : backwards = digits ++ (c :: rest) := by
            rw [← hBlanks]
            exact (List.prefix_iff_eq_append.mp (List.takeWhile_prefix _)).symm
          calc t = backwards.reverse ++ tail := ht
            _ = (c :: rest).reverse ++ (digits.reverse ++ tail) := by
              rw [hTaken, List.reverse_append, List.append_assoc]
            _ = _ := by
              rw [← List.append_assoc (Text.skipBlanks (c :: rest)).reverse, Text.skipBlanks,
                ← List.reverse_append, List.takeWhile_append_dropWhile]
      · cases h
    · cases h
  · cases h

/-- No digit is the letter of a half of the day. -/
theorem toLower_ne_of_isDigit {c : Char} (h : c.isDigit = true) : c.toLower ≠ 'm' := by
  intro hm
  rcases toLower_cases c with hSame | ⟨hLow, -, -⟩
  · rw [← hSame, hm] at h
    cases h
  · have hHigh := toNat_le_of_isDigit h
    omega

/-- Backwards, the tail of an hour is what is taken off. -/
theorem HourTail.trailingMeridiem (h : HourTail half tail) {c : Char} (hc : c.isDigit = true)
    (more : Text) :
    Typed.trailingMeridiem (tail.reverse ++ c :: more) = (half, c :: more) := by
  cases h with
  | plain =>
      rcases trailingMeridiem_cases (c :: more) with ⟨m, a, rest, half, hText, hLetters, -⟩ | hNone
      · obtain ⟨rfl, -⟩ := List.cons.inj hText
        exact absurd (Field.Meridiem.letters_of_ofLetters? hLetters).2 (toLower_ne_of_isDigit hc)
      · exact hNone
  | half hGap hLetters =>
      rename_i gap a m half
      have hSkip : Text.skipBlanks (gap.reverse ++ c :: more) = c :: more := by
        unfold Text.skipBlanks
        rw [List.dropWhile_append_of_pos fun x hx => hGap x (List.mem_reverse.mp hx)]
        exact Text.skipBlanks_cons (Text.isBlank_eq_false_of_isDigit hc) more
      have hText : (gap ++ [a, m]).reverse ++ c :: more = m :: a :: (gap.reverse ++ c :: more) := by
        simp
      rw [hText, Typed.trailingMeridiem]
      simp only [hLetters, hSkip]

theorem splitHour?_of_isHour {digits : Text} (h : IsHour before digits half t) :
    splitHour? t = some (before, Nat.ofDigitChars 10 digits 0, half) := by
  obtain ⟨gap, tail, hGap, hSome, hTail, rfl⟩ := h.exists_parts
  have hDigits : ∀ c ∈ digits.reverse, c.isDigit = true := fun c hc =>
    h.short.isDigit c (List.mem_reverse.mp hc)
  obtain ⟨c, more, hMore⟩ := List.exists_cons_of_ne_nil (List.reverse_ne_nil_iff.mpr hSome)
  have hc : Text.isBlank c = true := hGap c (List.mem_reverse.mp (by simp [hMore]))
  have hTaken : trailingMeridiem (before ++ (gap ++ (digits ++ tail))).reverse =
      (half, digits.reverse ++ (gap.reverse ++ before.reverse)) := by
    have hLast : Field.IsShort digits.reverse := ⟨by simpa using h.short.length, hDigits⟩
    obtain ⟨x, others, hx, hOthers⟩ := hLast.exists_cons
    have hRead := hTail.trailingMeridiem hx (others ++ (gap.reverse ++ before.reverse))
    rw [← List.cons_append, ← hOthers] at hRead
    simpa using hRead
  have hRun : (digits.reverse ++ (gap.reverse ++ before.reverse)).takeWhile Char.isDigit =
      digits.reverse := by
    rw [hMore]
    refine Field.DigitsEnd.takeWhile_append (Field.DigitsEnd.of_blankNext ?_) hDigits
    intro x hx
    obtain rfl : c = x := Option.some.inj hx
    exact hc
  have hBefore : Text.skipBlanks (gap.reverse ++ before.reverse) = before.reverse := by
    unfold Text.skipBlanks
    rw [List.dropWhile_append_of_pos fun x hx => hGap x (List.mem_reverse.mp hx)]
    exact List.reverse_injective (by rw [List.reverse_reverse]; exact h.trimEnd_eq)
  unfold splitHour?
  rw [hTaken]
  dsimp only
  rw [hRun, List.drop_left, if_pos (by simpa using h.short.length), hBefore, hMore]
  simp [hc, h.ne_nil, h.not_mem]

end Typed

end TableTalk
