import TableTalk.Text.Blank

/-!
# Decimal numbers

Numbers are written with an optional sign, digits with an optional point (at
least one digit on either side of it) and an optional power of ten.  `Decimal`
holds such a number exactly, as a signed coefficient and an exponent of ten.

Number columns compare by values of binary64.  `nearest` gives the value
nearest to a number, where a half goes to the even neighbour, as a whole number
of the smallest positive values, 2 to the power -1074, so that comparing two
numbers is comparing two integers.  A number too large for the format becomes
`infinity`, the first power of two beyond it.  The database does not read all
digits of a long number before it takes the nearest value (`Text.real`).
-/

namespace TableTalk

/-- The number `coefficient * 10 ^ exponent`, negated if `negative`. -/
structure Decimal where
  negative : Bool
  coefficient : Nat
  exponent : Int
deriving DecidableEq, Repr

namespace Decimal

def zero : Decimal := ⟨false, 0, 0⟩

/-- Take an optional sign off a text; the flag tells a minus. -/
def takeSign : Text → Bool × Text
  | '-' :: rest => (true, rest)
  | '+' :: rest => (false, rest)
  | t => (false, t)

/-- Take a power of ten off a text: the letter `e`, an optional sign and digits.
A text that does not open with one keeps all its characters and has power 0. -/
def takeExponent (t : Text) : Int × Text :=
  match t with
  | c :: rest =>
      if c.toLower = 'e' then
        let (negative, rest) := takeSign rest
        let digits := rest.takeWhile Char.isDigit
        if digits.isEmpty then (0, t)
        else
          let power : Int := Nat.ofDigitChars 10 digits 0
          (if negative then -power else power, rest.drop digits.length)
      else (0, t)
  | [] => (0, [])

/-- Take a point and the digits after it off a text; without a point, nothing. -/
def takeFraction (t : Text) : Text × Text :=
  match t with
  | '.' :: rest =>
      let digits := rest.takeWhile Char.isDigit
      (digits, rest.drop digits.length)
  | _ => ([], t)

/-- Take the longest number off the front of a text. -/
def take? (t : Text) : Option (Decimal × Text) :=
  let (negative, t) := takeSign t
  let whole := t.takeWhile Char.isDigit
  let (fraction, t) := takeFraction (t.drop whole.length)
  if whole.isEmpty && fraction.isEmpty then none
  else
    let (power, t) := takeExponent t
    some (⟨negative, Nat.ofDigitChars 10 (whole ++ fraction) 0, power - fraction.length⟩, t)

/-- Read a text that is a number and nothing else. -/
def read (t : Text) : Option Decimal :=
  match take? t with
  | some (d, []) => some d
  | _ => none

/-- The blanks that may stand before a number in a cell. -/
def isCellBlank (c : Char) : Bool :=
  c == ' ' || (9 ≤ c.toNat && c.toNat ≤ 13)

/-- A cell without the blanks at its ends. -/
def trimCell (t : Text) : Text :=
  ((t.dropWhile isCellBlank).reverse.dropWhile isCellBlank).reverse

/-- The number a cell opens with, blanks apart; a cell without one counts as zero. -/
def leading (t : Text) : Decimal :=
  match take? (t.dropWhile isCellBlank) with
  | some (d, _) => d
  | none => zero

/-- The whole number nearest to a quotient; a half goes to the even neighbour. -/
def divNearestEven (n d : Nat) : Nat :=
  let q := n / d
  let r := n % d
  if 2 * r < d then q
  else if d < 2 * r then q + 1
  else if q % 2 = 0 then q else q + 1

/-- The first power of two beyond binary64, in units of the smallest positive value. -/
def infinity : Nat := Nat.pow 2 2098

/-- The value of binary64 nearest to `n / d`, in units of the smallest positive
value: at most 53 leading bits are kept. -/
def nearestQuotient (n d : Nat) : Nat :=
  let units := n * Nat.pow 2 1074
  let step := Nat.pow 2 ((units / d).log2 + 1 - 53)
  min (divNearestEven units (d * step) * step) infinity

/-- The value of binary64 nearest to the number, in units of the smallest
positive value.  A coefficient of `k` digits times ten to a power above 400 is
infinite, and one below `-k - 400` is nothing, so the powers of ten stay small. -/
def nearest (d : Decimal) : Int :=
  let width : Int := (Nat.toDigits 10 d.coefficient).length
  let size : Nat :=
    if d.coefficient = 0 then 0
    else if 400 < d.exponent then infinity
    else if d.exponent < -width - 400 then 0
    else if 0 ≤ d.exponent then nearestQuotient (d.coefficient * Nat.pow 10 d.exponent.toNat) 1
    else nearestQuotient d.coefficient (Nat.pow 10 (-d.exponent).toNat)
  if d.negative then -(size : Int) else size

/-- The number has a nearest value in binary64. -/
def isFinite (d : Decimal) : Bool :=
  d.nearest.natAbs < infinity

/-- A coefficient of this size is full: the database reads no digit after it. -/
def fullCoefficient : Nat := 1844674407370955160

/-- Leave out the digits after a full coefficient.  Of twenty digits the first nineteen
may be full or not, and of more digits the first twenty are. -/
def kept (d : Decimal) : Decimal :=
  let cut := (Nat.toDigits 10 d.coefficient).length - 20
  let coefficient := d.coefficient / Nat.pow 10 cut
  if coefficient / 10 < fullCoefficient then ⟨d.negative, coefficient, d.exponent + cut⟩
  else ⟨d.negative, coefficient / 10, d.exponent + cut + 1⟩

end Decimal

/-- The number that the database reads a text as, in units of the smallest positive value. -/
def Text.real (t : Text) : Int :=
  (Decimal.leading t).kept.nearest

end TableTalk
