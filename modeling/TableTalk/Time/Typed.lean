import TableTalk.Time.Stored
import TableTalk.Time.Duration

/-!
# Dates as people type them

Values in messages are read against a reference instant, the moment the message
came in.  A text can name

* an instant: a day with a time to the second, `now`, or `now` moved by a
  duration;
* a span: a stored pair, or a minute, an hour or a day named by its coarsest
  field.

Days may be words (`today`, `yesterday`, `tomorrow`, `tmw`), and a month and day
without a year fall in the reference year.  Everything that would leave the
representable years is refused.
-/

namespace TableTalk

namespace Typed

/-- Styles of an instant given to the second. -/
def secondStyles : List InstantStyle :=
  [⟨.iso, .letter, .seconds⟩, ⟨.iso, .blanks, .seconds⟩,
   ⟨.shortYear, .blanks, .seconds⟩, ⟨.fullYear, .blanks, .seconds⟩,
   ⟨.shortYear, .blanks, .secondsHalf⟩, ⟨.fullYear, .blanks, .secondsHalf⟩]

/-- Styles of an instant that names a whole minute. -/
def minuteStyles : List InstantStyle :=
  [⟨.iso, .letter, .minutes⟩, ⟨.iso, .blanks, .minutes⟩,
   ⟨.shortYear, .blanks, .minutes⟩, ⟨.fullYear, .blanks, .minutes⟩,
   ⟨.shortYear, .blanks, .minutesHalf⟩, ⟨.fullYear, .blanks, .minutesHalf⟩]

/-- Styles of a whole day. -/
def dayStyles : List DayStyle :=
  [.iso, .shortYear, .fullYear]

/-- One or two digits, and what follows them. -/
def dayOrMonth? (t : Text) : Option (Text × Text) :=
  match t with
  | a :: b :: rest =>
      if a.isDigit then
        if b.isDigit then some ([a, b], rest) else some ([a], b :: rest)
      else none
  | [a] => if a.isDigit then some ([a], []) else none
  | [] => none

/-- A text that opens with a bare month and day, with the year written in after
them.  Nothing may follow the day but a blank and text on one line. -/
def withYear? (year : Int) (t : Text) : Option Text := do
  let (month, t) ← dayOrMonth? t
  let t ← Field.char? '/' t
  let (day, rest) ← dayOrMonth? t
  let dated := month ++ '/' :: day ++ '/' :: Field.year year ++ rest
  match rest with
  | [] => return dated
  | c :: line =>
      if Text.isBlank c && !line.contains '\n' then return dated else none

/-- Read a text as it is and, failing that, with the reference year written in. -/
def orWithYear {α : Type} (year : Int) (read : Text → Option α) (t : Text) : Option α :=
  (read t).orElse fun _ => (withYear? year t).bind read

/-- The reference instant moved by a signed duration: a sign, then the duration. -/
def moved? (now : Instant) (t : Text) : Option Instant :=
  match Text.skipBlanks t with
  | '+' :: rest => (Duration.read rest).bind fun s => now.advance s
  | '-' :: rest => (Duration.read rest).bind fun s => now.advance (-(s : Int))
  | _ => none

/-- What follows the word `now`, in either case. -/
def afterNow? : Text → Option Text
  | n :: o :: w :: rest => if Text.lower [n, o, w] = "now".toList then some rest else none
  | _ => none

/-- Words for days near the reference instant, as a number of days from it. -/
def dayWord? (t : Text) : Option Int :=
  let word := Text.lower t
  if word = "today".toList then some 0
  else if word = "yesterday".toList then some (-1)
  else if word = "tomorrow".toList ∨ word = "tmw".toList then some 1
  else none

/-- The day a text names. -/
def day? (now : Instant) (t : Text) : Option Date :=
  match dayWord? t with
  | some days => now.date.shift days
  | none => orWithYear now.date.year (Date.ofStyles? dayStyles) t

/-- The trailing `am` or `pm` of a text that is given backwards, and what precedes it. -/
def trailingMeridiem (backwards : Text) : Option Field.Meridiem × Text :=
  match backwards with
  | m :: a :: rest =>
      match Field.Meridiem.ofLetters? a m with
      | some half => (some half, Text.skipBlanks rest)
      | none => (none, backwards)
  | _ => (none, backwards)

/-- A text cut before its last word, an hour of one or two digits with `am` or
`pm` or neither: what stands before, the hour and the half of the day.  The first
part ends without blanks, is not empty and is on one line. -/
def splitHour? (t : Text) : Option (Text × Nat × Option Field.Meridiem) :=
  let (half, backwards) := trailingMeridiem t.reverse
  let digits := backwards.takeWhile Char.isDigit
  let blanks := backwards.drop digits.length
  let before := (Text.skipBlanks blanks).reverse
  if digits.length = 1 ∨ digits.length = 2 then
    match blanks with
    | c :: _ =>
        if Text.isBlank c && !before.isEmpty && !before.contains '\n' then
          some (before, Nat.ofDigitChars 10 digits.reverse 0, half)
        else none
    | [] => none
  else none

/-- The hour of the day, on a twelve-hour clock if a half of the day is given. -/
def hourOfDay? (half : Option Field.Meridiem) (hour : Nat) : Option Nat :=
  match half with
  | some half => half.hourOfDay? hour
  | none => if hour < 24 then some hour else none

/-- The first instant of the hour a text names. -/
def hour? (now : Instant) (t : Text) : Option Instant := do
  let (before, hour, half) ← splitHour? t
  let date ← day? now (Text.trim before)
  let hour ← hourOfDay? half hour
  Instant.ofClock? date hour 0 0

end Typed

/-- The instant a typed text names. -/
def Instant.ofTyped? (now : Instant) (t : Text) : Option Instant :=
  let t := Text.trim t
  match Typed.orWithYear now.date.year (Instant.ofStyles? Typed.secondStyles) t with
  | some instant => some instant
  | none =>
      match Typed.afterNow? t with
      | some [] => some now
      | some rest => Typed.moved? now rest
      | none => none

/-- The span a typed text names: a stored pair, a minute, an hour or a day. -/
def Interval.ofTyped? (now : Instant) (t : Text) : Option Interval :=
  let t := Text.trim t
  match Interval.ofStored? t with
  | some interval => some interval
  | none =>
      match Typed.orWithYear now.date.year (Instant.ofStyles? Typed.minuteStyles) t with
      | some start => Interval.startingAt start 60
      | none =>
          match Typed.hour? now t with
          | some start => Interval.startingAt start 3600
          | none =>
              match Typed.day? now t with
              | some date => Interval.startingAt (Instant.midnight date) 86400
              | none => none

end TableTalk
