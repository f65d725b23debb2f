import TableTalk.Text.Blank

/-!
# Durations

A duration is written as digits and a unit letter, such as `30m` or `1d`, and
counts whole seconds.  Durations of more than `maxSeconds` seconds are refused,
however they are written.
-/

namespace TableTalk.Duration

/-- Units a duration can be given in. -/
inductive TimeUnit where
  | second
  | minute
  | hour
  | day
deriving DecidableEq, Repr

namespace TimeUnit

/-- The letter that stands for a unit. -/
def letter : TimeUnit → Char
  | second => 's'
  | minute => 'm'
  | hour => 'h'
  | day => 'd'

/-- The unit a letter stands for; the case matters. -/
def ofLetter? : Char → Option TimeUnit
  | 's' => some second
  | 'm' => some minute
  | 'h' => some hour
  | 'd' => some day
  | _ => none

/-- Length of one unit. -/
def seconds : TimeUnit → Nat
  | second => 1
  | minute => 60
  | hour => 3600
  | day => 86400

@[simp] theorem ofLetter?_letter (u : TimeUnit) : ofLetter? u.letter = some u := by
  cases u <;> rfl

end TimeUnit

/-- The longest duration: the whole seconds of 2^63 - 1 milliseconds. -/
def maxSeconds : Nat := 9223372036854775

/-- Read a duration: decimal digits and a unit letter, blanks around allowed. -/
def read (t : Text) : Option Nat :=
  match (Text.trim t).reverse with
  | [] => none
  | last :: digits =>
      match TimeUnit.ofLetter? last with
      | none => none
      | some u =>
          if digits ≠ [] ∧ digits.all Char.isDigit then
            let total := Nat.ofDigitChars 10 digits.reverse 0 * u.seconds
            if total ≤ maxSeconds then some total else none
          else none

end TableTalk.Duration
