import TableTalk.Number.Decimal
import TableTalk.Time.Typed
import TableTalk.Table.Column
import TableTalk.Rejection

/-!
# Values of a column

A typed value becomes the stored text of its column, or is refused.  Texts are
kept as they are, numbers are trimmed, choices take the spelling of the option,
and dates and spans are written in their stored form.  On a column of single
dates a span stands for its start.
-/

namespace TableTalk.Value

/-- The stored text of a number. -/
def number? (input : Text) : Option Text :=
  let trimmed := Text.trim input
  match Decimal.read trimmed with
  | some d => if d.isFinite then some trimmed else none
  | none => none

/-- The stored text of an instant, or of the start of a span. -/
def instant? (now : Instant) (input : Text) : Option Text :=
  match Instant.ofTyped? now input with
  | some t => some t.stored
  | none => (Interval.ofTyped? now input).map fun i => i.start.stored

/-- The first option spelled like the input, case and blanks around apart. -/
def choice? (options : List Text) (input : Text) : Option Text :=
  options.find? fun option => Text.sameLetters option (Text.trim input)

/-- The stored text of a value, if the column's type admits it. -/
def stored? (now : Instant) (column : Column) (input : Text) : Option Text :=
  match column.type with
  | .text => some input
  | .number => number? input
  | .date | .dateTime | .time => instant? now input
  | .dateRange => (Interval.ofTyped? now input).map Interval.stored
  | .multipleChoice => choice? column.options input

/-- The stored text of a value, or why the column refuses it. -/
def normalize (now : Instant) (column : Column) (input : Text) : Except Rejection Text :=
  match stored? now column input with
  | some value => .ok value
  | none => .error (.invalidValue column.displayName input)

/-- What is kept of a value that is not refused. -/
theorem stored?_of_normalize {now : Instant} {column : Column} {input value : Text}
    (h : normalize now column input = .ok value) : stored? now column input = some value := by
  unfold normalize at h
  split at h
  · rename_i value' hStored
    rw [hStored]
    exact congrArg some (Except.ok.inj h)
  · cases h

end TableTalk.Value
