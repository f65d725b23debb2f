import TableTalk.Time.Instant
import TableTalk.Time.Field

/-!
# Styles of writing dates and instants

A style says in which order the fields of a day or of a clock time are written.
An instant is a day, a gap and a clock time.  Reading in a style takes the
fields one after another and must use up the whole text; the first style of a
list that reads a text decides its meaning.
-/

namespace TableTalk

/-- Ways to write a day. -/
inductive DayStyle where
  /-- Year, month, day with dashes -/
  | iso
  /-- Month, day and a year of two digits, with slashes -/
  | shortYear
  /-- Month, day and a full year, with slashes -/
  | fullYear
deriving DecidableEq, Repr

/-- Ways to separate a day from a clock time. -/
inductive Gap where
  /-- The letter `T` -/
  | letter
  /-- Any number of blanks -/
  | blanks
deriving DecidableEq, Repr

/-- Ways to write a clock time. -/
inductive ClockStyle where
  /-- Hour 0 to 23 and minute -/
  | minutes
  /-- Hour 0 to 23, minute and second -/
  | seconds
  /-- Hour 1 to 12, minute, `am` or `pm` -/
  | minutesHalf
  /-- Hour 1 to 12, minute, second, `am` or `pm` -/
  | secondsHalf
deriving DecidableEq, Repr

/-- A way to write an instant. -/
structure InstantStyle where
  day : DayStyle
  /-- What stands between the day and the time -/
  gap : Gap
  clock : ClockStyle
deriving DecidableEq, Repr

namespace DayStyle

/-- Take a day off the front of a text. -/
def take? : DayStyle → Text → Option (Date × Text)
  | iso, t => do
      let (year, t) ← Field.year? t
      let t ← Field.char? '-' t
      let (month, t) ← Field.number? 2 t
      let t ← Field.char? '-' t
      let (day, t) ← Field.number? 2 t
      let date ← Date.ofParts? year month day
      return (date, t)
  | shortYear, t => do
      let (month, t) ← Field.number? 2 t
      let t ← Field.char? '/' t
      let (day, t) ← Field.number? 2 t
      let t ← Field.char? '/' t
      let (year, t) ← Field.number? 2 t
      let date ← Date.ofParts? (Field.yearOfCentury year) month day
      return (date, t)
  | fullYear, t => do
      let (month, t) ← Field.number? 2 t
      let t ← Field.char? '/' t
      let (day, t) ← Field.number? 2 t
      let t ← Field.char? '/' t
      let (year, t) ← Field.year? t
      let date ← Date.ofParts? year month day
      return (date, t)

/-- Read a text that is a day and nothing else. -/
def read (style : DayStyle) (t : Text) : Option Date :=
  match style.take? t with
  | some (date, []) => some date
  | _ => none

end DayStyle

namespace Gap

/-- Take the gap off the front of a text. -/
def take? : Gap → Text → Option Text
  | letter, t => Field.char? 'T' t
  | blanks, t => some (Text.skipBlanks t)

end Gap

/-- Hour, minute and second read off a clock. -/
structure ClockReading where
  hour : Nat
  minute : Nat
  second : Nat
deriving DecidableEq, Repr

namespace ClockStyle

/-- Take a clock time off the front of a text.  Ranges are checked when the instant is made. -/
def take? : ClockStyle → Text → Option (ClockReading × Text)
  | minutes, t => do
      let (hour, t) ← Field.number? 2 t
      let t ← Field.char? ':' t
      let (minute, t) ← Field.number? 2 t
      return (⟨hour, minute, 0⟩, t)
  | seconds, t => do
      let (hour, t) ← Field.number? 2 t
      let t ← Field.char? ':' t
      let (minute, t) ← Field.number? 2 t
      let t ← Field.char? ':' t
      let (second, t) ← Field.number? 2 t
      return (⟨hour, minute, second⟩, t)
  | minutesHalf, t => do
      let (hour, t) ← Field.number? 2 t
      let t ← Field.char? ':' t
      let (minute, t) ← Field.number? 2 t
      let (half, t) ← Field.meridiem? t
      let hour ← half.hourOfDay? hour
      return (⟨hour, minute, 0⟩, t)
  | secondsHalf, t => do
      let (hour, t) ← Field.number? 2 t
      let t ← Field.char? ':' t
      let (minute, t) ← Field.number? 2 t
      let t ← Field.char? ':' t
      let (second, t) ← Field.number? 2 t
      let (half, t) ← Field.meridiem? t
      let hour ← half.hourOfDay? hour
      return (⟨hour, minute, second⟩, t)

/-- Read a text that is a clock time and nothing else. -/
def read (style : ClockStyle) (t : Text) : Option ClockReading :=
  match style.take? t with
  | some (reading, []) => some reading
  | _ => none

end ClockStyle

namespace InstantStyle

/-- Read a text that is an instant written in the style. -/
def read (style : InstantStyle) (t : Text) : Option Instant := do
  let (date, t) ← style.day.take? t
  let t ← style.gap.take? t
  let clock ← style.clock.read t
  Instant.ofClock? date clock.hour clock.minute clock.second

end InstantStyle

/-- The day a text names in the first of the styles that reads it. -/
def Date.ofStyles? (styles : List DayStyle) (t : Text) : Option Date :=
  styles.findSome? fun style => style.read t

/-- The instant a text names in the first of the styles that reads it. -/
def Instant.ofStyles? (styles : List InstantStyle) (t : Text) : Option Instant :=
  styles.findSome? fun style => style.read t

end TableTalk
