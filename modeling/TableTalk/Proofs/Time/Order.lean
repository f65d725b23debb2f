import Mathlib.Data.Int.ConditionallyCompleteOrder
import Mathlib.Order.ConditionallyCompleteLattice.Basic
import Mathlib.Order.Monotone.Basic
import TableTalk.Time.Instant

/-!
# The order of dates and instants

Day numbers and ranks fold a date and an instant into one integer.  Nothing is lost
on the way: the numbers are compared as the fields are, from the coarsest to the
finest, and different instants have different ranks.

* `Date.dayNumber_lt_iff` compares day numbers by year, month and day.  Its core is
  that a day of a year comes before the first day of the next
  (`dayOfYear_lt_yearLength`), so that days of different years never overlap.
* `Instant.rank_lt_iff` compares ranks by day, second and fraction.
* `Date.dayNumber_injective` and `Instant.rank_injective` follow, and with them the
  total order of instants.
-/

namespace TableTalk

/-! ### Years -/

/-- Number of days of a year. -/
def yearLength (leap : Bool) : Nat :=
  if leap then 366 else 365

theorem daysBeforeYear_succ (year : Int) :
    daysBeforeYear (year + 1) = daysBeforeYear year + yearLength (isLeapYear year) := by
  unfold daysBeforeYear yearLength
  by_cases hLeap : isLeapYear year = true
  · have hRule : year % 4 = 0 ∧ (year % 100 ≠ 0 ∨ year % 400 = 0) := by
      simpa [isLeapYear] using hLeap
    rw [if_pos hLeap]
    omega
  · have hRule : ¬ (year % 4 = 0 ∧ (year % 100 ≠ 0 ∨ year % 400 = 0)) := by
      simpa [isLeapYear] using hLeap
    rw [if_neg hLeap]
    omega

theorem daysBeforeYear_strictMono : StrictMono daysBeforeYear := by
  apply strictMono_int_of_lt_succ
  intro year
  rw [daysBeforeYear_succ]
  unfold yearLength
  split <;> omega

/-! ### Days of one year -/

theorem monthLength_le (leap : Bool) (month : Nat) : monthLength leap month ≤ 31 := by
  unfold monthLength
  split
  · split <;> omega
  · omega
  · omega
  · omega
  · omega
  · omega

theorem daysBeforeMonth_succ {leap : Bool} {month : Nat} (hMonth : 1 ≤ month) :
    daysBeforeMonth leap (month + 1) = daysBeforeMonth leap month + monthLength leap month := by
  obtain ⟨m, rfl⟩ : ∃ m, month = m + 1 := ⟨month - 1, by omega⟩
  rfl

/-- The days of a month come before the first day of every later month. -/
theorem daysBeforeMonth_add_le {leap : Bool} {month later : Nat} (hMonth : 1 ≤ month)
    (hLater : month < later) :
    daysBeforeMonth leap month + monthLength leap month ≤ daysBeforeMonth leap later := by
  induction later, hLater using Nat.le_induction with
  | base => exact (daysBeforeMonth_succ hMonth).ge
  | succ n hn ih =>
      rw [daysBeforeMonth_succ (by omega : 1 ≤ n)]
      omega

theorem daysBeforeMonth_thirteen (leap : Bool) : daysBeforeMonth leap 13 = yearLength leap := by
  cases leap <;> rfl

namespace Date

/-- Position of a day within its year, from 0. -/
def dayOfYear (d : Date) : Nat :=
  daysBeforeMonth (isLeapYear d.year) d.month + (d.day - 1)

theorem dayNumber_eq (d : Date) : d.dayNumber = daysBeforeYear d.year + d.dayOfYear := by
  unfold dayNumber dayOfYear
  omega

theorem month_pos (d : Date) : 1 ≤ d.month := d.isDay.2.2.1

theorem month_le (d : Date) : d.month ≤ 12 := d.isDay.2.2.2.1

theorem day_pos (d : Date) : 1 ≤ d.day := d.isDay.2.2.2.2.1

theorem day_le (d : Date) : d.day ≤ monthLength (isLeapYear d.year) d.month := d.isDay.2.2.2.2.2

/-- A day of a year comes before the first day of the next year. -/
theorem dayOfYear_lt_yearLength (d : Date) : d.dayOfYear < yearLength (isLeapYear d.year) := by
  have hMonth : daysBeforeMonth (isLeapYear d.year) d.month +
      monthLength (isLeapYear d.year) d.month ≤ daysBeforeMonth (isLeapYear d.year) 13 :=
    daysBeforeMonth_add_le d.month_pos (Nat.lt_succ_of_le d.month_le)
  rw [daysBeforeMonth_thirteen] at hMonth
  have hDay := d.day_le
  have hPos := d.day_pos
  unfold dayOfYear
  omega

/-- Days of one year are compared by month and day. -/
theorem dayOfYear_lt_of_month_lt {a b : Date} (hYear : a.year = b.year)
    (hMonth : a.month < b.month) : a.dayOfYear < b.dayOfYear := by
  have hNext : daysBeforeMonth (isLeapYear b.year) a.month +
      monthLength (isLeapYear b.year) a.month ≤ daysBeforeMonth (isLeapYear b.year) b.month :=
    daysBeforeMonth_add_le a.month_pos hMonth
  have hDay := a.day_le
  have hPos := a.day_pos
  unfold dayOfYear
  rw [hYear] at hDay ⊢
  omega

theorem dayNumber_lt_of_year_lt {a b : Date} (hYear : a.year < b.year) :
    a.dayNumber < b.dayNumber := by
  have hWithin := a.dayOfYear_lt_yearLength
  have hNext : daysBeforeYear (a.year + 1) ≤ daysBeforeYear b.year :=
    daysBeforeYear_strictMono.monotone (by omega)
  rw [daysBeforeYear_succ] at hNext
  rw [dayNumber_eq, dayNumber_eq]
  omega

/-- Dates by year, month and day. -/
def Precedes (a b : Date) : Prop :=
  a.year < b.year ∨ a.year = b.year ∧
    (a.month < b.month ∨ a.month = b.month ∧ a.day < b.day)

theorem dayNumber_lt_of_precedes {a b : Date} (h : a.Precedes b) :
    a.dayNumber < b.dayNumber := by
  rcases h with hYear | ⟨hYear, hMonth | ⟨hMonth, hDay⟩⟩
  · exact dayNumber_lt_of_year_lt hYear
  · have hlt := dayOfYear_lt_of_month_lt hYear hMonth
    rw [dayNumber_eq, dayNumber_eq, hYear]
    omega
  · have hPos := a.day_pos
    unfold dayNumber
    rw [hYear, hMonth]
    omega

theorem eq_of_fields {a b : Date} (hYear : a.year = b.year) (hMonth : a.month = b.month)
    (hDay : a.day = b.day) : a = b := by
  cases a
  cases b
  simp_all

theorem precedes_trichotomy (a b : Date) : a.Precedes b ∨ a = b ∨ b.Precedes a := by
  unfold Precedes
  by_cases hFields : a.year = b.year ∧ a.month = b.month ∧ a.day = b.day
  · exact Or.inr (Or.inl (eq_of_fields hFields.1 hFields.2.1 hFields.2.2))
  · omega

/-- Day numbers are compared as dates are. -/
theorem dayNumber_lt_iff {a b : Date} : a.dayNumber < b.dayNumber ↔ a.Precedes b := by
  refine ⟨fun h => ?_, dayNumber_lt_of_precedes⟩
  rcases precedes_trichotomy a b with hBefore | rfl | hAfter
  · exact hBefore
  · exact absurd h (lt_irrefl _)
  · exact absurd h (lt_asymm (dayNumber_lt_of_precedes hAfter))

theorem dayNumber_injective : Function.Injective dayNumber := by
  intro a b h
  rcases precedes_trichotomy a b with hBefore | hEq | hAfter
  · exact absurd h (dayNumber_lt_of_precedes hBefore).ne
  · exact hEq
  · exact absurd h (dayNumber_lt_of_precedes hAfter).ne'

theorem dayNumber_eq_iff {a b : Date} :
    a.dayNumber = b.dayNumber ↔ a.year = b.year ∧ a.month = b.month ∧ a.day = b.day := by
  constructor
  · intro h
    rw [dayNumber_injective h]
    exact ⟨rfl, rfl, rfl⟩
  · rintro ⟨hYear, hMonth, hDay⟩
    rw [eq_of_fields hYear hMonth hDay]

end Date

/-! ### Instants -/

namespace Instant

theorem rank_max (a b : Instant) : (max a b).rank = max a.rank b.rank := by
  change (if a ≤ b then b else a).rank = max a.rank b.rank
  by_cases h : a ≤ b
  · rw [if_pos h]
    exact (max_eq_right h).symm
  · rw [if_neg h]
    exact (max_eq_left (le_of_not_ge h)).symm

theorem rank_min (a b : Instant) : (min a b).rank = min a.rank b.rank := by
  change (if a ≤ b then a else b).rank = min a.rank b.rank
  by_cases h : a ≤ b
  · rw [if_pos h]
    exact (min_eq_left h).symm
  · rw [if_neg h]
    exact (min_eq_right (le_of_not_ge h)).symm

/-- A leap second reaches at most to the end of the next second. -/
theorem nanos_lt_two_seconds (t : Instant) : t.nanos < 2 * nanosPerSecond := by
  have hNanos := t.nanos_lt
  omega

/-- Ranks are compared by day, second and fraction. -/
theorem rank_lt_iff {a b : Instant} :
    a.rank < b.rank ↔ a.date.dayNumber < b.date.dayNumber ∨
      a.date.dayNumber = b.date.dayNumber ∧
        (a.second < b.second ∨ a.second = b.second ∧ a.nanos < b.nanos) := by
  have ha := a.second_lt
  have hb := b.second_lt
  have hna := a.nanos_lt_two_seconds
  have hnb := b.nanos_lt_two_seconds
  unfold rank
  simp only [secondsPerDay, nanosPerSecond] at *
  omega

theorem rank_injective : Function.Injective rank := by
  intro a b h
  have hab := mt (rank_lt_iff (a := a) (b := b)).mpr h.not_lt
  have hba := mt (rank_lt_iff (a := b) (b := a)).mpr h.not_gt
  have hDay : a.date.dayNumber = b.date.dayNumber := by omega
  have hSecond : a.second = b.second := by omega
  have hNanos : a.nanos = b.nanos := by omega
  have hDate : a.date = b.date := Date.dayNumber_injective hDay
  cases a
  cases b
  simp_all

instance : Ord Instant := ⟨fun a b => compare a.rank b.rank⟩

/-- Instants are totally ordered, with the comparisons, `min` and `max` that the
definitions use. -/
instance : LinearOrder Instant :=
  rank_injective.linearOrder rank Iff.rfl Iff.rfl rank_min rank_max fun _ _ => rfl

theorem rank_le_rank {a b : Instant} : a.rank ≤ b.rank ↔ a ≤ b := Iff.rfl

theorem rank_lt_rank {a b : Instant} : a.rank < b.rank ↔ a < b := Iff.rfl

end Instant

end TableTalk
