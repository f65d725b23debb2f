import TableTalk.Number.Decimal
import TableTalk.Query.Constraint

/-!
# When a cell satisfies a constraint

Cells are texts.  They compare character by character, or by the numbers they
open with, as the database reads them, on a number column.  A constraint holds
of a cell when one of its comparisons does.
-/

namespace TableTalk

/-- Order of two texts, character by character. -/
def Text.order (a b : Text) : Ordering :=
  if a < b then .lt else if a = b then .eq else .gt

/-- Order of two cells, as numbers or as texts. -/
def cellOrder (numeric : Bool) (a b : Text) : Ordering :=
  if numeric then compare a.real b.real
  else Text.order a b

/-- The comparison holds of a value that stands so to the one compared with. -/
def Comparator.admits : Comparator → Ordering → Bool
  | equals, o => o == .eq
  | lessThan, o => o == .lt
  | greaterThan, o => o == .gt
  | greaterThanEquals, o => o != .lt
  | notEquals, o => o != .eq

/-- The comparison holds of a cell. -/
def Comparison.holds (numeric : Bool) (c : Comparison) (cell : Text) : Bool :=
  c.comparator.admits (cellOrder numeric cell c.value)

/-- The constraint holds of a cell. -/
def Constraint.holds (numeric : Bool) (c : Constraint) (cell : Text) : Bool :=
  c.comparisons.any fun x => x.holds numeric cell

/-- All constraints hold of a cell. -/
def Constraint.allHold (numeric : Bool) (cs : List Constraint) (cell : Text) : Bool :=
  cs.all fun c => c.holds numeric cell

end TableTalk
