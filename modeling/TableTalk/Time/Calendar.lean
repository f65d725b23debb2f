/-!
# The civil calendar

Dates of the Gregorian calendar, extended without a break in both directions,
for the years from `minYear` to `maxYear`.  A `Date` carries the proof that its
day exists.  `Date.dayNumber` counts days along the calendar, day 0 being
1 January of year 1; `Date.ofDayNumber?` goes back and refuses a count outside
the representable years.
-/

namespace TableTalk

def minYear : Int := -262143

def maxYear : Int := 262142

/-- Every fourth year is a leap year, except three centuries out of four. -/
def isLeapYear (year : Int) : Bool :=
  year % 4 == 0 && (year % 100 != 0 || year % 400 == 0)

/-- Number of days of a month, in a leap year or in a common year. -/
def monthLength (leap : Bool) (month : Nat) : Nat :=
  match month with
  | 2 => if leap then 29 else 28
  | 4 | 6 | 9 | 11 => 30
  | _ => 31

/-- Number of days of the year before the month. -/
def daysBeforeMonth (leap : Bool) : Nat → Nat
  | 0 => 0
  | 1 => 0
  | m + 2 => daysBeforeMonth leap (m + 1) + monthLength leap (m + 1)

/-- Month and day of the `k`-th day of a year, counted from 0. -/
def monthAndDay (leap : Bool) (k : Nat) : Nat × Nat :=
  let month := ((List.range' 2 11).filter fun m => daysBeforeMonth leap m ≤ k).length + 1
  (month, k - daysBeforeMonth leap month + 1)

/-- Number of days from 1 January of year 1 to 1 January of the year. -/
def daysBeforeYear (year : Int) : Int :=
  365 * (year - 1) + (year - 1) / 4 - (year - 1) / 100 + (year - 1) / 400

/-- The year a day falls in.  The estimate by the mean length of a year, 146097
days in 400 years, is at most one year off. -/
def yearOfDay (n : Int) : Int :=
  let estimate := 400 * n / 146097 + 1
  if daysBeforeYear (estimate + 1) ≤ n then estimate + 1
  else if daysBeforeYear estimate ≤ n then estimate
  else estimate - 1

/-- The calendar has this day, in a representable year. -/
def IsDay (year : Int) (month day : Nat) : Prop :=
  minYear ≤ year ∧ year ≤ maxYear ∧ 1 ≤ month ∧ month ≤ 12 ∧
    1 ≤ day ∧ day ≤ monthLength (isLeapYear year) month

instance (year : Int) (month day : Nat) : Decidable (IsDay year month day) := by
  unfold IsDay
  infer_instance

/-- A day of the calendar. -/
structure Date where
  /-- Year, with year 0 before year 1 -/
  year : Int
  /-- Month, 1 to 12 -/
  month : Nat
  /-- Day of the month, from 1 -/
  day : Nat
  isDay : IsDay year month day
deriving DecidableEq

namespace Date

/-- The date with these parts, if the calendar has it. -/
def ofParts? (year : Int) (month day : Nat) : Option Date :=
  if h : IsDay year month day then some ⟨year, month, day, h⟩ else none

/-- Days from 1 January of year 1, which has number 0. -/
def dayNumber (d : Date) : Int :=
  daysBeforeYear d.year + daysBeforeMonth (isLeapYear d.year) d.month + (d.day - 1 : Nat)

/-- The date with a day number, if it is representable. -/
def ofDayNumber? (n : Int) : Option Date :=
  let year := yearOfDay n
  let parts := monthAndDay (isLeapYear year) (n - daysBeforeYear year).toNat
  ofParts? year parts.1 parts.2

/-- The date some days later, or earlier for a negative count. -/
def shift (d : Date) (days : Int) : Option Date :=
  ofDayNumber? (d.dayNumber + days)

theorem ofParts?_self (d : Date) : ofParts? d.year d.month d.day = some d := by
  simp [ofParts?, d.isDay]

theorem ofParts?_eq_some_iff {year : Int} {month day : Nat} {d : Date} :
    ofParts? year month day = some d ↔ d.year = year ∧ d.month = month ∧ d.day = day := by
  constructor
  · intro h
    unfold ofParts? at h
    split at h
    · obtain rfl := Option.some.inj h
      exact ⟨rfl, rfl, rfl⟩
    · simp at h
  · rintro ⟨rfl, rfl, rfl⟩
    exact ofParts?_self d

end Date

end TableTalk
