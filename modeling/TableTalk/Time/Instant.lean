import TableTalk.Time.Calendar

/-!
# Instants and spans

An `Instant` is a day, a second of that day and a fraction in nanoseconds.  The
last second of a minute may be followed by a leap second, which is kept as a
fraction of one second or more.  Instants are ordered by day, second and
fraction, in that order; `rank` folds the three into one number.

Moving an instant by whole seconds leaves the leap second: forwards it counts as
part of its own second, backwards as a second of its own.  Moving by nothing
keeps it.
-/

namespace TableTalk

def nanosPerSecond : Nat := 1000000000

def secondsPerDay : Nat := 86400

/-- A point of civil time. -/
structure Instant where
  date : Date
  /-- Second of the day -/
  second : Nat
  /-- Fraction of the second; one second or more during a leap second -/
  nanos : Nat
  second_lt : second < secondsPerDay
  /-- Only the last second of a minute is followed by a leap second -/
  nanos_lt : nanos < nanosPerSecond ∨ second % 60 = 59 ∧ nanos < 2 * nanosPerSecond
deriving DecidableEq

namespace Instant

/-- The first instant of a day. -/
def midnight (d : Date) : Instant :=
  ⟨d, 0, 0, by decide, Or.inl (by decide)⟩

/-- The instant at a clock reading; second 60 is the leap second after the minute. -/
def ofClock? (d : Date) (hour minute second : Nat) : Option Instant :=
  if h : hour < 24 ∧ minute < 60 ∧ second < 60 then
    some ⟨d, hour * 3600 + minute * 60 + second, 0, by unfold secondsPerDay; omega,
      Or.inl (by decide)⟩
  else if h : hour < 24 ∧ minute < 60 ∧ second = 60 then
    some ⟨d, hour * 3600 + minute * 60 + 59, nanosPerSecond, by unfold secondsPerDay; omega,
      Or.inr ⟨by omega, by decide⟩⟩
  else none

def hour (t : Instant) : Nat :=
  t.second / 3600

def minute (t : Instant) : Nat :=
  t.second / 60 % 60

/-- The second a clock shows: 60 during a leap second. -/
def shownSecond (t : Instant) : Nat :=
  t.second % 60 + t.nanos / nanosPerSecond

/-- The instant lies in a leap second. -/
def inLeapSecond (t : Instant) : Bool :=
  nanosPerSecond ≤ t.nanos

/-- Position in the order of instants: by day, then second, then fraction. -/
def rank (t : Instant) : Int :=
  (t.date.dayNumber * secondsPerDay + t.second) * (2 * nanosPerSecond) + t.nanos

instance : LE Instant := ⟨fun a b => a.rank ≤ b.rank⟩

instance : LT Instant := ⟨fun a b => a.rank < b.rank⟩

instance (a b : Instant) : Decidable (a ≤ b) := inferInstanceAs (Decidable (a.rank ≤ b.rank))

instance (a b : Instant) : Decidable (a < b) := inferInstanceAs (Decidable (a.rank < b.rank))

instance : Max Instant := ⟨fun a b => if a ≤ b then b else a⟩

instance : Min Instant := ⟨fun a b => if a ≤ b then a else b⟩

/-- The fraction within the second, with a leap second folded into its second. -/
theorem nanos_mod_lt (t : Instant) : t.nanos % nanosPerSecond < nanosPerSecond :=
  Nat.mod_lt _ (by decide)

/-- The instant a number of seconds later, or earlier for a negative number. -/
def advance (t : Instant) (seconds : Int) : Option Instant :=
  if seconds = 0 then some t
  else
    let leap : Int := if t.inLeapSecond && seconds < 0 then 1 else 0
    let total : Int := t.second + leap + seconds
    (t.date.shift (total / secondsPerDay)).map fun d =>
      ⟨d, (total % secondsPerDay).toNat, t.nanos % nanosPerSecond,
        by unfold secondsPerDay; omega, Or.inl t.nanos_mod_lt⟩

/-- Nanoseconds from `b` to `a`.  A leap second passed on the way counts. -/
def nanosSince (a b : Instant) : Int :=
  let days := a.date.dayNumber - b.date.dayNumber
  let leap : Int :=
    if b.second < a.second && b.inLeapSecond then 1
    else if a.second < b.second && a.inLeapSecond then -1
    else 0
  (days * secondsPerDay + (a.second - b.second : Int) + leap) * nanosPerSecond +
    (a.nanos - b.nanos : Int)

end Instant

/-- A span of time from `start` up to, and without, `stop`. -/
structure Interval where
  start : Instant
  stop : Instant
deriving DecidableEq

namespace Interval

/-- The span of a number of seconds from an instant, unless it ends out of range. -/
def startingAt (start : Instant) (seconds : Int) : Option Interval :=
  (start.advance seconds).map fun stop => ⟨start, stop⟩

/-- Whole seconds from the start to the end, fractions cut off towards zero. -/
def seconds (i : Interval) : Int :=
  (i.stop.nanosSince i.start).tdiv nanosPerSecond

end Interval

end TableTalk
