import Mathlib.Data.List.TakeWhile
import TableTalk.Time.Typed

/-!
# Marks in written dates and times

Readers of dates take blanks, digits and a few letters for granted; what tells the
forms apart are the separators.  A `Mark` is a kind of characters that a written date
or time has only as separators and signs, such as the colon.  Reading then determines
how many marks a text has:

* a day has two separators, and perhaps the sign of its year (`DayStyle.countP_take?`);
* a clock time has one colon to the minute and two to the second
  (`ClockStyle.countP_read`);
* writing the reference year into a text adds a slash and the year
  (`Typed.countP_withYear?`).

The meaning of the fields plays no part.
-/

namespace TableTalk

/-- A kind of characters that blanks, digits and the letters of dates are not of. -/
structure Mark (p : Char → Bool) : Prop where
  /-- Blanks are none -/
  blank : ∀ c, Text.isBlank c = true → p c = false
  /-- Digits are none -/
  digit : ∀ c, c.isDigit = true → p c = false
  /-- The letter between day and time is none -/
  letter : p 'T' = false
  /-- The letters of the halves of the day are none -/
  half : ∀ a m half, Field.Meridiem.ofLetters? a m = some half → p a = false ∧ p m = false
  /-- The case of a letter makes no difference -/
  lower : ∀ c : Char, p c.toLower = p c

/-- One if the character is of the kind, otherwise zero. -/
def marksOf (p : Char → Bool) (c : Char) : Nat :=
  if p c then 1 else 0

variable {p : Char → Bool}

theorem countP_cons_eq (c : Char) (t : Text) : (c :: t).countP p = t.countP p + marksOf p c :=
  List.countP_cons

theorem marksOf_of_not {c : Char} (h : p c = false) : marksOf p c = 0 := by
  unfold marksOf
  rw [h]
  rfl

theorem countP_eq_zero_of_forall {q : Char → Bool} {t : Text} (hq : ∀ c, q c = true → p c = false)
    (ht : ∀ c ∈ t, q c = true) : t.countP p = 0 := by
  refine List.countP_eq_zero.mpr fun c hc => ?_
  rw [hq c (ht c hc)]
  exact Bool.false_ne_true

theorem countP_dropWhile {q : Char → Bool} (hq : ∀ c, q c = true → p c = false) (t : Text) :
    (t.dropWhile q).countP p = t.countP p := by
  have hTaken : (t.takeWhile q).countP p = 0 :=
    countP_eq_zero_of_forall hq fun c hc => List.mem_takeWhile_imp hc
  have hParts : (t.takeWhile q ++ t.dropWhile q).countP p = t.countP p := by
    rw [List.takeWhile_append_dropWhile]
  rwa [List.countP_append, hTaken, Nat.zero_add] at hParts

namespace Mark

variable (hp : Mark p)
include hp

theorem countP_skipBlanks (t : Text) : (Text.skipBlanks t).countP p = t.countP p :=
  countP_dropWhile hp.blank t

theorem countP_trim (t : Text) : (Text.trim t).countP p = t.countP p := by
  unfold Text.trim Text.trimEnd
  rw [List.countP_reverse, countP_dropWhile hp.blank, List.countP_reverse, hp.countP_skipBlanks]

theorem countP_digits {t : Text} (h : ∀ c ∈ t, c.isDigit = true) : t.countP p = 0 :=
  countP_eq_zero_of_forall hp.digit h

theorem countP_lower (t : Text) : (Text.lower t).countP p = t.countP p := by
  unfold Text.lower
  rw [List.countP_map]
  exact List.countP_congr fun c _ => by rw [Function.comp_apply, hp.lower c]

end Mark

/-! ### Fields -/

namespace Field

/-- Digits and what follows them make up the text. -/
theorem exists_of_digitsUpTo? {width n : Nat} {t rest : Text}
    (h : digitsUpTo? width t = some (n, rest)) :
    ∃ digits : Text, t = digits ++ rest ∧ ∀ c ∈ digits, c.isDigit = true := by
  unfold digitsUpTo? at h
  -- The digits are named, since they occur in the test, the number and the rest.
  set digits := (t.take width).takeWhile Char.isDigit with hDigits
  have hPrefix : digits <+: t := (List.takeWhile_prefix _).trans (List.take_prefix width t)
  dsimp only at h
  split at h
  · cases h
  · simp only [Option.some.injEq, Prod.mk.injEq] at h
    obtain ⟨-, rfl⟩ := h
    exact ⟨digits, (List.prefix_iff_eq_append.mp hPrefix).symm,
      fun c hc => List.mem_takeWhile_imp hc⟩

theorem exists_of_digits? {n : Nat} {t rest : Text} (h : digits? t = some (n, rest)) :
    ∃ digits : Text, t = digits ++ rest ∧ ∀ c ∈ digits, c.isDigit = true := by
  unfold digits? at h
  set digits := t.takeWhile Char.isDigit with hDigits
  have hPrefix : digits <+: t := List.takeWhile_prefix _
  dsimp only at h
  split at h
  · cases h
  · simp only [Option.some.injEq, Prod.mk.injEq] at h
    obtain ⟨-, rfl⟩ := h
    exact ⟨digits, (List.prefix_iff_eq_append.mp hPrefix).symm,
      fun c hc => List.mem_takeWhile_imp hc⟩

theorem countP_digitsUpTo? (hp : Mark p) {width n : Nat} {t rest : Text}
    (h : digitsUpTo? width t = some (n, rest)) : t.countP p = rest.countP p := by
  obtain ⟨digits, rfl, hDigits⟩ := exists_of_digitsUpTo? h
  rw [List.countP_append, hp.countP_digits hDigits, Nat.zero_add]

theorem countP_digits? (hp : Mark p) {n : Nat} {t rest : Text} (h : digits? t = some (n, rest)) :
    t.countP p = rest.countP p := by
  obtain ⟨digits, rfl, hDigits⟩ := exists_of_digits? h
  rw [List.countP_append, hp.countP_digits hDigits, Nat.zero_add]

theorem countP_number? (hp : Mark p) {width n : Nat} {t rest : Text}
    (h : number? width t = some (n, rest)) : t.countP p = rest.countP p := by
  rw [← hp.countP_skipBlanks t]
  exact countP_digitsUpTo? hp h

/-- A separator is taken off as it stands. -/
theorem countP_char? {c : Char} {t rest : Text} (h : char? c t = some rest) :
    t.countP p = rest.countP p + marksOf p c := by
  cases t with
  | nil => cases h
  | cons x t =>
      rw [char?] at h
      split at h
      · rename_i hx
        rw [← Option.some.inj h, hx, countP_cons_eq]
      · cases h

/-- A year may have a sign. -/
theorem countP_year? (hp : Mark p) {y : Int} {t rest : Text} (h : year? t = some (y, rest)) :
    ∃ sign ≤ marksOf p '-' + marksOf p '+', t.countP p = rest.countP p + sign := by
  rw [← hp.countP_skipBlanks t]
  unfold year? at h
  split at h
  · rename_i t' hSkip
    obtain ⟨⟨n, rest'⟩, hDigits, hEq⟩ := Option.map_eq_some_iff.mp h
    obtain ⟨-, rfl⟩ := Prod.mk.inj hEq
    refine ⟨marksOf p '-', Nat.le_add_right _ _, ?_⟩
    rw [hSkip, countP_cons_eq, countP_digits? hp hDigits]
  · rename_i t' hSkip
    obtain ⟨⟨n, rest'⟩, hDigits, hEq⟩ := Option.map_eq_some_iff.mp h
    obtain ⟨-, rfl⟩ := Prod.mk.inj hEq
    refine ⟨marksOf p '+', Nat.le_add_left _ _, ?_⟩
    rw [hSkip, countP_cons_eq, countP_digits? hp hDigits]
  · obtain ⟨⟨n, rest'⟩, hDigits, hEq⟩ := Option.map_eq_some_iff.mp h
    obtain ⟨-, rfl⟩ := Prod.mk.inj hEq
    exact ⟨0, Nat.zero_le _, countP_digitsUpTo? hp hDigits⟩

theorem countP_meridiem? (hp : Mark p) {half : Meridiem} {t rest : Text}
    (h : meridiem? t = some (half, rest)) : t.countP p = rest.countP p := by
  unfold meridiem? at h
  split at h
  · rename_i a m t'
    obtain ⟨half', hHalf, hEq⟩ := Option.map_eq_some_iff.mp h
    obtain ⟨-, rfl⟩ := Prod.mk.inj hEq
    obtain ⟨ha, hm⟩ := hp.half a m half' hHalf
    rw [countP_cons_eq, countP_cons_eq, marksOf_of_not ha, marksOf_of_not hm]
    rfl
  · cases h

end Field

/-! ### Styles -/

/-- The separator within a day. -/
def DayStyle.separator : DayStyle → Char
  | iso => '-'
  | shortYear | fullYear => '/'

/-- The number of colons in a clock time. -/
def ClockStyle.colons : ClockStyle → Nat
  | minutes | minutesHalf => 1
  | seconds | secondsHalf => 2

/-- A day has two separators and perhaps the sign of its year. -/
theorem DayStyle.countP_take? (hp : Mark p) {style : DayStyle} {t rest : Text} {d : Date}
    (h : style.take? t = some (d, rest)) :
    ∃ sign ≤ marksOf p '-' + marksOf p '+',
      t.countP p = rest.countP p + 2 * marksOf p style.separator + sign := by
  cases style with
  | iso =>
      simp only [take?, Option.bind_eq_bind, Option.bind_eq_some_iff, Option.pure_def,
        Option.some.injEq, Prod.mk.injEq, Prod.exists] at h
      obtain ⟨y, t₁, hYear, t₂, hDash₁, m, t₃, hMonth, t₄, hDash₂, day, t₅, hDay, date, hDate,
        rfl, rfl⟩ := h
      obtain ⟨sign, hSign, hCount⟩ := Field.countP_year? hp hYear
      refine ⟨sign, hSign, ?_⟩
      rw [hCount, Field.countP_char? hDash₁, Field.countP_number? hp hMonth,
        Field.countP_char? hDash₂, Field.countP_number? hp hDay]
      simp only [separator]
      omega
  | shortYear =>
      -- A year of two digits has no sign.
      simp only [take?, Option.bind_eq_bind, Option.bind_eq_some_iff, Option.pure_def,
        Option.some.injEq, Prod.mk.injEq, Prod.exists] at h
      obtain ⟨m, t₁, hMonth, t₂, hSlash₁, day, t₃, hDay, t₄, hSlash₂, y, t₅, hYear, date, hDate,
        rfl, rfl⟩ := h
      refine ⟨0, Nat.zero_le _, ?_⟩
      rw [Field.countP_number? hp hMonth, Field.countP_char? hSlash₁,
        Field.countP_number? hp hDay, Field.countP_char? hSlash₂, Field.countP_number? hp hYear]
      simp only [separator]
      omega
  | fullYear =>
      simp only [take?, Option.bind_eq_bind, Option.bind_eq_some_iff, Option.pure_def,
        Option.some.injEq, Prod.mk.injEq, Prod.exists] at h
      obtain ⟨m, t₁, hMonth, t₂, hSlash₁, day, t₃, hDay, t₄, hSlash₂, y, t₅, hYear, date, hDate,
        rfl, rfl⟩ := h
      obtain ⟨sign, hSign, hCount⟩ := Field.countP_year? hp hYear
      refine ⟨sign, hSign, ?_⟩
      rw [Field.countP_number? hp hMonth, Field.countP_char? hSlash₁,
        Field.countP_number? hp hDay, Field.countP_char? hSlash₂, hCount]
      simp only [separator]
      omega

theorem DayStyle.countP_read (hp : Mark p) {style : DayStyle} {t : Text} {d : Date}
    (h : style.read t = some d) :
    ∃ sign ≤ marksOf p '-' + marksOf p '+',
      t.countP p = 2 * marksOf p style.separator + sign := by
  unfold read at h
  split at h
  · rename_i date hTake
    obtain ⟨sign, hSign, hCount⟩ := countP_take? hp hTake
    exact ⟨sign, hSign, by rw [hCount, List.countP_nil, Nat.zero_add]⟩
  · cases h

theorem Gap.countP_take? (hp : Mark p) {gap : Gap} {t rest : Text}
    (h : gap.take? t = some rest) : t.countP p = rest.countP p := by
  cases gap with
  | letter => rw [Field.countP_char? h, marksOf_of_not hp.letter, Nat.add_zero]
  | blanks => rw [← Option.some.inj h, hp.countP_skipBlanks]

/-- A clock time has a colon to the minute and another to the second. -/
theorem ClockStyle.countP_take? (hp : Mark p) {style : ClockStyle} {t rest : Text}
    {reading : ClockReading} (h : style.take? t = some (reading, rest)) :
    t.countP p = rest.countP p + style.colons * marksOf p ':' := by
  cases style with
  | minutes =>
      simp only [take?, Option.bind_eq_bind, Option.bind_eq_some_iff, Option.pure_def,
        Option.some.injEq, Prod.mk.injEq, Prod.exists] at h
      obtain ⟨hour, t₁, hHour, t₂, hColon, minute, t₃, hMinute, -, rfl⟩ := h
      rw [Field.countP_number? hp hHour, Field.countP_char? hColon, Field.countP_number? hp hMinute]
      simp only [colons]
      omega
  | seconds =>
      simp only [take?, Option.bind_eq_bind, Option.bind_eq_some_iff, Option.pure_def,
        Option.some.injEq, Prod.mk.injEq, Prod.exists] at h
      obtain ⟨hour, t₁, hHour, t₂, hColon₁, minute, t₃, hMinute, t₄, hColon₂, second, t₅, hSecond,
        -, rfl⟩ := h
      rw [Field.countP_number? hp hHour, Field.countP_char? hColon₁,
        Field.countP_number? hp hMinute, Field.countP_char? hColon₂,
        Field.countP_number? hp hSecond]
      simp only [colons]
      omega
  | minutesHalf =>
      simp only [take?, Option.bind_eq_bind, Option.bind_eq_some_iff, Option.pure_def,
        Option.some.injEq, Prod.mk.injEq, Prod.exists] at h
      obtain ⟨hour, t₁, hHour, t₂, hColon, minute, t₃, hMinute, half, t₄, hHalf, _, _, -, rfl⟩ := h
      rw [Field.countP_number? hp hHour, Field.countP_char? hColon,
        Field.countP_number? hp hMinute, Field.countP_meridiem? hp hHalf]
      simp only [colons]
      omega
  | secondsHalf =>
      simp only [take?, Option.bind_eq_bind, Option.bind_eq_some_iff, Option.pure_def,
        Option.some.injEq, Prod.mk.injEq, Prod.exists] at h
      obtain ⟨hour, t₁, hHour, t₂, hColon₁, minute, t₃, hMinute, t₄, hColon₂, second, t₅, hSecond,
        half, t₆, hHalf, _, _, -, rfl⟩ := h
      rw [Field.countP_number? hp hHour, Field.countP_char? hColon₁,
        Field.countP_number? hp hMinute, Field.countP_char? hColon₂,
        Field.countP_number? hp hSecond, Field.countP_meridiem? hp hHalf]
      simp only [colons]
      omega

theorem ClockStyle.countP_read (hp : Mark p) {style : ClockStyle} {t : Text}
    {reading : ClockReading} (h : style.read t = some reading) :
    t.countP p = style.colons * marksOf p ':' := by
  unfold read at h
  split at h
  · rename_i reading' hTake
    rw [countP_take? hp hTake, List.countP_nil, Nat.zero_add]
  · cases h

theorem InstantStyle.countP_read (hp : Mark p) {style : InstantStyle} {t : Text} {i : Instant}
    (h : style.read t = some i) :
    ∃ sign ≤ marksOf p '-' + marksOf p '+',
      t.countP p = 2 * marksOf p style.day.separator + sign +
        style.clock.colons * marksOf p ':' := by
  simp only [read, Option.bind_eq_bind, Option.bind_eq_some_iff, Prod.exists] at h
  obtain ⟨date, t₁, hDay, t₂, hGap, clock, hClock, -⟩ := h
  obtain ⟨sign, hSign, hCount⟩ := DayStyle.countP_take? hp hDay
  refine ⟨sign, hSign, ?_⟩
  rw [hCount, Gap.countP_take? hp hGap, ClockStyle.countP_read hp hClock]
  omega

/-! ### The reference year -/

namespace Field

theorem isDigit_of_mem_twoDigits {n : Nat} {c : Char} (h : c ∈ twoDigits n) :
    c.isDigit = true := by
  simp only [twoDigits, List.mem_cons, List.not_mem_nil, or_false] at h
  rcases h with rfl | rfl
  · rw [Nat.isDigit_digitChar]
    exact decide_eq_true (Nat.mod_lt _ (by decide))
  · rw [Nat.isDigit_digitChar]
    exact decide_eq_true (Nat.mod_lt _ (by decide))

theorem isDigit_of_mem_fourDigitsOrMore {n : Nat} {c : Char} (h : c ∈ fourDigitsOrMore n) :
    c.isDigit = true := by
  unfold fourDigitsOrMore at h
  rcases List.mem_append.mp h with hZero | hDigit
  · rw [List.eq_of_mem_replicate hZero]
    rfl
  · exact Nat.isDigit_of_mem_toDigits (by decide) (by decide) hDigit

/-- A written year has no marks but its sign. -/
theorem countP_year_le (hp : Mark p) (y : Int) :
    (year y).countP p ≤ marksOf p '-' + marksOf p '+' := by
  unfold year
  split
  · have hDigits : (fourDigits y.toNat).countP p = 0 :=
      hp.countP_digits fun c hc => (List.mem_append.mp hc).elim isDigit_of_mem_twoDigits
        isDigit_of_mem_twoDigits
    rw [hDigits]
    exact Nat.zero_le _
  · rw [countP_cons_eq, hp.countP_digits fun c => isDigit_of_mem_fourDigitsOrMore]
    split
    · omega
    · omega

end Field

namespace Typed

/-- One or two digits and what follows them make up the text. -/
theorem eq_append_of_dayOrMonth? {t digits rest : Text} (h : dayOrMonth? t = some (digits, rest)) :
    t = digits ++ rest := by
  unfold dayOrMonth? at h
  split at h
  · split at h
    · split at h <;> cases h <;> rfl
    · cases h
  · split at h <;> cases h
    rfl
  · cases h

/-- Writing the reference year into a text adds a slash and the year. -/
theorem countP_withYear? {y : Int} {t dated : Text} (h : withYear? y t = some dated) :
    dated.countP p = t.countP p + marksOf p '/' + (Field.year y).countP p := by
  simp only [withYear?, Option.bind_eq_bind, Option.bind_eq_some_iff, Prod.exists] at h
  obtain ⟨month, t₁, hMonth, t₂, hSlash, day, rest, hDay, hRest⟩ := h
  have hDated : month ++ '/' :: day ++ '/' :: Field.year y ++ rest = dated := by
    split at hRest
    · exact Option.some.inj hRest
    · split at hRest
      · exact Option.some.inj hRest
      · cases hRest
  -- The slash and the year stand after the day; everything else is the text as it was.
  rw [← hDated, eq_append_of_dayOrMonth? hMonth]
  simp only [List.countP_append, countP_cons_eq]
  rw [Field.countP_char? hSlash, eq_append_of_dayOrMonth? hDay, List.countP_append]
  omega

end Typed

end TableTalk
