import TableTalk.Text.Blank

/-!
# Structured queries

A query is a list of constraints, all of which must hold, and an optional
ordering.  A constraint compares one column with a stored value, or with either
of two.
-/

namespace TableTalk

/-- Comparisons of a cell with a value. -/
inductive Comparator where
  | equals
  | lessThan
  | greaterThan
  | greaterThanEquals
  | notEquals
deriving DecidableEq, Repr

namespace Comparator

/-- The sign of a comparison. -/
def sign : Comparator → Text
  | equals => ['=']
  | lessThan => ['<']
  | greaterThan => ['>']
  | greaterThanEquals => ['>', '=']
  | notEquals => ['!', '=']

def all : List Comparator :=
  [equals, lessThan, greaterThan, greaterThanEquals, notEquals]

/-- The comparison a sign stands for. -/
def ofSign? (t : Text) : Option Comparator :=
  all.find? fun c => c.sign == t

end Comparator

/-- A comparison with a value. -/
structure Comparison where
  comparator : Comparator
  /-- Stored text it is compared with -/
  value : Text
deriving DecidableEq, Repr

/-- A condition on one column: the first comparison holds, or the second if there is one. -/
structure Constraint where
  /-- Storage name of the column -/
  column : Text
  first : Comparison
  /-- Alternative -/
  second : Option Comparison := none
deriving DecidableEq, Repr

namespace Constraint

/-- A condition of one comparison. -/
def single (column : Text) (comparator : Comparator) (value : Text) : Constraint :=
  ⟨column, ⟨comparator, value⟩, none⟩

/-- A condition of two comparisons, one of which must hold. -/
def either (column : Text) (first second : Comparison) : Constraint :=
  ⟨column, first, some second⟩

def comparisons (c : Constraint) : List Comparison :=
  c.first :: c.second.toList

end Constraint

/-- Directions of an ordering. -/
inductive SortOrder where
  | ascending
  | descending
deriving DecidableEq, Repr

namespace SortOrder

/-- The key word of a direction. -/
def keyword : SortOrder → Text
  | ascending => "ASC".toList
  | descending => "DESC".toList

end SortOrder

/-- A column to order by. -/
structure OrderBy where
  /-- Storage name of the column -/
  column : Text
  order : SortOrder
deriving DecidableEq, Repr

/-- Conditions on rows and an ordering. -/
structure Query where
  /-- Conditions, all of which must hold -/
  constraints : List Constraint := []
  orderBy : Option OrderBy := none
deriving DecidableEq, Repr

namespace Query

/-- Add a condition after the others. -/
def addConstraint (q : Query) (c : Constraint) : Query :=
  { q with constraints := q.constraints ++ [c] }

/-- Order by a column, in place of any ordering before. -/
def setOrderBy (q : Query) (column : Text) (order : SortOrder) : Query :=
  { q with orderBy := some ⟨column, order⟩ }

/-- The conditions on a column, in order. -/
def constraintsOn (q : Query) (column : Text) : List Constraint :=
  q.constraints.filter fun c => c.column == column

/-- The query without its conditions on a column. -/
def withoutConstraintsOn (q : Query) (column : Text) : Query :=
  { q with constraints := q.constraints.filter fun c => c.column != column }

end Query

end TableTalk
