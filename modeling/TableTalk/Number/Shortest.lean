import TableTalk.Number.Decimal
import TableTalk.Text.Cut

/-!
# The shortest text of a binary64 number

A positive value of binary64 is written with the fewest digits that read back as
the same value, and among those with the digits nearest to it.  The text never
uses a power of ten.
-/

namespace TableTalk.Decimal

/-- Number of digits before the point of the value of so many units; not
positive when the value is below one tenth. -/
def magnitude (units : Nat) : Int :=
  ((Nat.toDigits 10 (units * Nat.pow 10 400 / Nat.pow 2 1074)).length : Int) - 400

/-- The value nearest to `n * 10 ^ e`, in units. -/
def unitsOf (n : Nat) (e : Int) : Nat :=
  if 0 ≤ e then nearestQuotient (n * Nat.pow 10 e.toNat) 1
  else nearestQuotient n (Nat.pow 10 (-e).toNat)

/-- The whole number of steps of `10 ^ e` in a value of so many units. -/
def stepsOf (units : Nat) (e : Int) : Nat × Nat :=
  if 0 ≤ e then (units, Nat.pow 2 1074 * Nat.pow 10 e.toNat)
  else (units * Nat.pow 10 (-e).toNat, Nat.pow 2 1074)

/-- The number of `k` digits nearest to a value, if it reads back as the value. -/
def withDigits (units k : Nat) : Option (Nat × Int) :=
  let e := magnitude units - k
  let (n, d) := stepsOf units e
  let low := n / d
  let near := divNearestEven n d
  let candidates := if near = low then [low, low + 1] else [low + 1, low]
  (candidates.find? fun c => unitsOf c e == units).map fun c => (c, e)

/-- The digits and the exponent of the shortest text of a value. -/
def shortest (units : Nat) : Nat × Int :=
  ((List.range' 1 17).findSome? (withDigits units)).getD (0, 0)

/-- The number `n * 10 ^ e` written with a point and without a power of ten. -/
def positional (n : Nat) (e : Int) : Text :=
  let digits := Nat.toDigits 10 n
  if 0 ≤ e then digits ++ List.replicate e.toNat '0'
  else
    let places := (-e).toNat
    if places < digits.length then
      digits.take (digits.length - places) ++ '.' :: digits.drop (digits.length - places)
    else '0' :: '.' :: List.replicate (places - digits.length) '0' ++ digits

/-- The shortest text of the value nearest to a number. -/
def shortestText (d : Decimal) : Text :=
  let size := d.nearest.natAbs
  let digits := if size = 0 then ['0'] else positional (shortest size).1 (shortest size).2
  if d.negative then '-' :: digits else digits

end TableTalk.Decimal
