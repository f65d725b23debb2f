import TableTalk.Text.Blank

/-!
# Fields of a written date

The pieces dates and clock times are written with, each as a writer and a
reader.  A reader takes a field off the front of a text and returns what
follows it.  Number fields may be preceded by blanks; separators and the
letters of `am` and `pm` may not.
-/

namespace TableTalk.Field

/-- Two digits, with a leading zero. -/
def twoDigits (n : Nat) : Text :=
  [Nat.digitChar (n / 10 % 10), Nat.digitChar (n % 10)]

/-- Four digits, with leading zeros. -/
def fourDigits (n : Nat) : Text :=
  twoDigits (n / 100) ++ twoDigits (n % 100)

/-- At least four digits, with leading zeros. -/
def fourDigitsOrMore (n : Nat) : Text :=
  let digits := Nat.toDigits 10 n
  List.replicate (4 - digits.length) '0' ++ digits

/-- A year: four digits from 0 to 9999, otherwise a sign and at least four. -/
def year (y : Int) : Text :=
  if 0 ≤ y ∧ y ≤ 9999 then fourDigits y.toNat
  else (if y < 0 then '-' else '+') :: fourDigitsOrMore y.natAbs

/-- The digits a text opens with, as a number. -/
def digits? (t : Text) : Option (Nat × Text) :=
  let digits := t.takeWhile Char.isDigit
  if digits.isEmpty then none
  else some (Nat.ofDigitChars 10 digits 0, t.drop digits.length)

/-- The at most `width` digits a text opens with, as a number. -/
def digitsUpTo? (width : Nat) (t : Text) : Option (Nat × Text) :=
  let digits := (t.take width).takeWhile Char.isDigit
  if digits.isEmpty then none
  else some (Nat.ofDigitChars 10 digits 0, t.drop digits.length)

/-- A number field of at most `width` digits, after blanks. -/
def number? (width : Nat) (t : Text) : Option (Nat × Text) :=
  digitsUpTo? width (Text.skipBlanks t)

/-- A year field, after blanks: up to four digits, or a sign and any number of digits. -/
def year? (t : Text) : Option (Int × Text) :=
  match Text.skipBlanks t with
  | '-' :: rest => (digits? rest).map fun r => (-(r.1 : Int), r.2)
  | '+' :: rest => (digits? rest).map fun r => ((r.1 : Int), r.2)
  | rest => (digitsUpTo? 4 rest).map fun r => ((r.1 : Int), r.2)

/-- The year a two-digit year stands for: 00 to 69 after 2000, 70 to 99 after 1900. -/
def yearOfCentury (n : Nat) : Int :=
  if n < 70 then 2000 + n else 1900 + n

def char? (c : Char) : Text → Option Text
  | x :: rest => if x = c then some rest else none
  | [] => none

/-- Halves of the day on a twelve-hour clock. -/
inductive Meridiem where
  | am
  | pm
deriving DecidableEq, Repr

namespace Meridiem

/-- The half of the day two letters stand for, in either case. -/
def ofLetters? (a m : Char) : Option Meridiem :=
  if m.toLower = 'm' then
    if a.toLower = 'a' then some am else if a.toLower = 'p' then some pm else none
  else none

/-- The hour of the day shown as `hour`, from 1 to 12, on a twelve-hour clock. -/
def hourOfDay? (half : Meridiem) (hour : Nat) : Option Nat :=
  if 1 ≤ hour ∧ hour ≤ 12 then
    some (match half with
      | am => hour % 12
      | pm => hour % 12 + 12)
  else none

end Meridiem

/-- The letters `am` or `pm`, in either case. -/
def meridiem? : Text → Option (Meridiem × Text)
  | a :: m :: rest => (Meridiem.ofLetters? a m).map fun half => (half, rest)
  | _ => none

end TableTalk.Field
