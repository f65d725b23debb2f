import Mathlib.Tactic.IntervalCases
import TableTalk.Proofs.Time.Order
import TableTalk.Proofs.Time.Whole

/-!
# Stored texts sort by time

Cells are compared character by character.  In years of four digits this is the order of
time up to whole seconds (`Instant.stored_lt_stored_iff`), leap seconds included.

Up to the minute all such texts have the same length and the same separators, so the
first field that differs decides (`Instant.minuteText_append_lt_iff`).  The second
follows only when it is not zero: a text without it is shorter and comes first.

A stored span opens with the text of its start, and the slash after it sorts before
every digit and every colon.  The span therefore comes after its start, and before
every later instant (`Instant.append_slash_lt_stored`).
-/

namespace TableTalk

/-! ### Fields of fixed width -/

theorem digitChar_lt_iff {a b : Nat} (ha : a < 10) (hb : b < 10) :
    Nat.digitChar a < Nat.digitChar b ↔ a < b := by
  interval_cases a <;> interval_cases b <;> decide

theorem digitChar_inj {a b : Nat} (ha : a < 10) (hb : b < 10) :
    Nat.digitChar a = Nat.digitChar b ↔ a = b := by
  interval_cases a <;> interval_cases b <;> decide

namespace Field

variable {x y : Text}

/-- Two numbers of two digits are compared before anything that follows them. -/
theorem twoDigits_append_lt_iff {m n : Nat} (hm : m < 100) (hn : n < 100) :
    twoDigits m ++ x < twoDigits n ++ y ↔ m < n ∨ m = n ∧ x < y := by
  have hTens := digitChar_lt_iff (a := m / 10 % 10) (b := n / 10 % 10) (by omega) (by omega)
  have hTensEq := digitChar_inj (a := m / 10 % 10) (b := n / 10 % 10) (by omega) (by omega)
  have hOnes := digitChar_lt_iff (a := m % 10) (b := n % 10) (by omega) (by omega)
  have hOnesEq := digitChar_inj (a := m % 10) (b := n % 10) (by omega) (by omega)
  change _ :: _ :: x < _ :: _ :: y ↔ _
  rw [List.cons_lt_cons_iff, List.cons_lt_cons_iff, hTens, hTensEq, hOnes, hOnesEq]
  by_cases hxy : x < y
  · simp only [hxy, and_true]
    omega
  · simp only [hxy, and_false, or_false]
    omega

theorem fourDigits_append_lt_iff {m n : Nat} (hm : m < 10000) (hn : n < 10000) :
    fourDigits m ++ x < fourDigits n ++ y ↔ m < n ∨ m = n ∧ x < y := by
  unfold fourDigits
  rw [List.append_assoc, List.append_assoc, twoDigits_append_lt_iff (by omega) (by omega),
    twoDigits_append_lt_iff (by omega) (by omega)]
  by_cases hxy : x < y
  · simp only [hxy, and_true]
    omega
  · simp only [hxy, and_false, or_false]
    omega

end Field

/-- The same character in front changes nothing. -/
theorem Text.cons_lt_cons {c : Char} {x y : Text} : c :: x < c :: y ↔ x < y :=
  List.cons_lt_cons_self

/-- A text does not come after its continuations. -/
theorem Text.not_append_lt (x y : Text) : ¬ x ++ y < x :=
  List.not_lt.mpr (List.le_append_left)

namespace Instant

/-- The year is written with four digits and no sign. -/
def HasFourDigitYear (t : Instant) : Prop :=
  0 ≤ t.date.year ∧ t.date.year ≤ 9999

/-- The stored text up to the minute. -/
def minuteText (t : Instant) : Text :=
  t.date.stored ++ 'T' :: Field.twoDigits t.hour ++ ':' :: Field.twoDigits t.minute

/-- The stored text after the minute. -/
def secondText (t : Instant) : Text :=
  if t.shownSecond = 0 then [] else ':' :: Field.twoDigits t.shownSecond

theorem stored_eq (t : Instant) : t.stored = t.minuteText ++ t.secondText := by
  unfold stored minuteText secondText
  split
  · rw [List.append_nil]
  · rfl

/-- Number of whole minutes from the first day of year 1. -/
def minuteNumber (t : Instant) : Int :=
  t.date.dayNumber * 1440 + (t.second / 60 : Nat)

variable {a b : Instant} {x y : Text}

theorem minuteNumber_lt_iff : a.minuteNumber < b.minuteNumber ↔
    a.date.dayNumber < b.date.dayNumber ∨ a.date.dayNumber = b.date.dayNumber ∧
      (a.hour < b.hour ∨ a.hour = b.hour ∧ a.minute < b.minute) := by
  have ha := a.second_lt
  have hb := b.second_lt
  unfold minuteNumber hour minute
  simp only [secondsPerDay] at ha hb
  omega

theorem minuteNumber_eq_iff : a.minuteNumber = b.minuteNumber ↔
    a.date.dayNumber = b.date.dayNumber ∧ a.hour = b.hour ∧ a.minute = b.minute := by
  have ha := a.second_lt
  have hb := b.second_lt
  unfold minuteNumber hour minute
  simp only [secondsPerDay] at ha hb
  omega

theorem minuteText_append (ha : a.HasFourDigitYear) (x : Text) : a.minuteText ++ x =
    Field.fourDigits a.date.year.toNat ++ '-' :: (Field.twoDigits a.date.month ++ '-' ::
      (Field.twoDigits a.date.day ++ 'T' :: (Field.twoDigits a.hour ++ ':' ::
        (Field.twoDigits a.minute ++ x)))) := by
  have hYear : Field.year a.date.year = Field.fourDigits a.date.year.toNat := if_pos ha
  unfold minuteText Date.stored
  rw [hYear]
  simp only [List.append_assoc, List.cons_append]

/-- The fields of an instant after the year have two digits. -/
theorem fields_lt (t : Instant) :
    t.date.month < 100 ∧ t.date.day < 100 ∧ t.hour < 100 ∧ t.minute < 100 := by
  have hMonth := t.date.month_le
  have hDay := t.date.day_le
  have hLength := monthLength_le (isLeapYear t.date.year) t.date.month
  have hSecond := t.second_lt
  unfold hour minute
  simp only [secondsPerDay] at hSecond
  omega

/-- Up to the minute, texts of years of four digits are compared by the minute. -/
theorem minuteText_append_lt_iff (ha : a.HasFourDigitYear) (hb : b.HasFourDigitYear) :
    a.minuteText ++ x < b.minuteText ++ y ↔
      a.minuteNumber < b.minuteNumber ∨ a.minuteNumber = b.minuteNumber ∧ x < y := by
  obtain ⟨hMonthA, hDayA, hHourA, hMinuteA⟩ := a.fields_lt
  obtain ⟨hMonthB, hDayB, hHourB, hMinuteB⟩ := b.fields_lt
  have hYearA := ha
  have hYearB := hb
  unfold HasFourDigitYear at hYearA hYearB
  rw [minuteText_append ha, minuteText_append hb,
    Field.fourDigits_append_lt_iff (by omega) (by omega), Text.cons_lt_cons,
    Field.twoDigits_append_lt_iff hMonthA hMonthB, Text.cons_lt_cons,
    Field.twoDigits_append_lt_iff hDayA hDayB, Text.cons_lt_cons,
    Field.twoDigits_append_lt_iff hHourA hHourB, Text.cons_lt_cons,
    Field.twoDigits_append_lt_iff hMinuteA hMinuteB, minuteNumber_lt_iff,
    minuteNumber_eq_iff, Date.dayNumber_lt_iff, Date.dayNumber_eq_iff]
  unfold Date.Precedes
  have hYear : a.date.year.toNat < b.date.year.toNat ↔ a.date.year < b.date.year := by omega
  have hYearEq : a.date.year.toNat = b.date.year.toNat ↔ a.date.year = b.date.year := by omega
  rw [hYear, hYearEq]
  clear hYear hYearEq ha hb hYearA hYearB
  -- Both sides compare the same fields in the same order, and the texts after them.
  grind

/-- An instant is before a whole second when its minute is earlier or, within a minute, its
clock shows a smaller second. -/
theorem lt_iff_of_isWhole (hb : b.IsWhole) :
    a < b ↔ a.minuteNumber < b.minuteNumber ∨
      a.minuteNumber = b.minuteNumber ∧ a.shownSecond < b.shownSecond := by
  have hSecondA := a.second_lt
  have hSecondB := b.second_lt
  have hNanosA := a.nanos_lt
  have hNanosB := b.nanos_lt
  rw [← rank_lt_rank, rank_lt_iff]
  unfold minuteNumber shownSecond
  unfold IsWhole at hb
  simp only [secondsPerDay, nanosPerSecond] at *
  omega

theorem shownSecond_lt (t : Instant) : t.shownSecond < 100 := by
  have hNanos := t.nanos_lt_two_seconds
  unfold shownSecond
  simp only [nanosPerSecond] at *
  omega

/-- Seconds are compared as shown; a minute without one comes first. -/
theorem secondText_lt_iff : a.secondText < b.secondText ↔ a.shownSecond < b.shownSecond := by
  unfold secondText
  by_cases hA : a.shownSecond = 0
  · rw [if_pos hA, hA]
    by_cases hB : b.shownSecond = 0
    · rw [if_pos hB, hB]
      exact iff_of_false (List.not_lt_nil []) (lt_irrefl 0)
    · rw [if_neg hB]
      exact iff_of_true (List.nil_lt_cons _ _) (Nat.pos_of_ne_zero hB)
  · rw [if_neg hA]
    by_cases hB : b.shownSecond = 0
    · rw [if_pos hB, hB]
      exact iff_of_false (List.not_lt_nil _) (Nat.not_lt_zero _)
    · have hField := Field.twoDigits_append_lt_iff (x := []) (y := []) a.shownSecond_lt
        b.shownSecond_lt
      rw [List.append_nil, List.append_nil] at hField
      rw [if_neg hB, Text.cons_lt_cons, hField]
      simp

/-- Stored texts sort by time.  The later instant must be a whole second: a fraction is not
shown, so that an instant and its whole second have one text. -/
theorem stored_lt_stored_iff (hb : b.IsWhole) (hYearA : a.HasFourDigitYear)
    (hYearB : b.HasFourDigitYear) : a.stored < b.stored ↔ a < b := by
  rw [stored_eq, stored_eq, minuteText_append_lt_iff hYearA hYearB, lt_iff_of_isWhole hb,
    secondText_lt_iff]

/-- What follows an earlier second after a slash sorts before a later one. -/
theorem secondText_append_slash_lt (hlt : a.shownSecond < b.shownSecond) :
    a.secondText ++ '/' :: x < b.secondText := by
  have hB : b.shownSecond ≠ 0 := Nat.ne_zero_of_lt hlt
  unfold secondText
  rw [if_neg hB]
  by_cases hA : a.shownSecond = 0
  · -- The slash meets the colon before the seconds of `b`.
    rw [if_pos hA, List.nil_append, List.cons_lt_cons_iff]
    exact Or.inl (by decide)
  · have hField := Field.twoDigits_append_lt_iff (x := '/' :: x) (y := []) a.shownSecond_lt
      b.shownSecond_lt
    rw [List.append_nil] at hField
    rw [if_neg hA, List.cons_append, Text.cons_lt_cons, hField]
    exact Or.inl hlt

/-- What follows an instant after a slash sorts before every later instant. -/
theorem append_slash_lt_stored (hb : b.IsWhole) (hYearA : a.HasFourDigitYear)
    (hYearB : b.HasFourDigitYear) (hlt : a < b) : a.stored ++ '/' :: x < b.stored := by
  rw [stored_eq, stored_eq, List.append_assoc, minuteText_append_lt_iff hYearA hYearB]
  rcases (lt_iff_of_isWhole hb).mp hlt with hMinute | ⟨hMinute, hSecond⟩
  · exact Or.inl hMinute
  · exact Or.inr ⟨hMinute, secondText_append_slash_lt hSecond⟩

/-- A text that opens with an instant and a slash sorts before exactly the later instants. -/
theorem append_slash_lt_stored_iff (hb : b.IsWhole) (hYearA : a.HasFourDigitYear)
    (hYearB : b.HasFourDigitYear) : a.stored ++ '/' :: x < b.stored ↔ a < b := by
  constructor
  · intro hText
    have hStored : a.stored < b.stored := List.lt_of_le_of_lt List.le_append_left hText
    exact (stored_lt_stored_iff hb hYearA hYearB).mp hStored
  · exact append_slash_lt_stored hb hYearA hYearB

end Instant

end TableTalk
