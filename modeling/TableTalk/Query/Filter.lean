import TableTalk.Query.Constraint
import TableTalk.Query.Segment
import TableTalk.Value

/-!
# Constraints of a filter

A filter names a column, a comparison and a typed value.  On texts, numbers and
choices it is one comparison with the stored value.  On dates the value may be a
span, and then the comparison is with its ends: equal means inside, less means
before its start and greater means from its end on.  A span column holds whole
spans, which are compared as such for equality.
-/

namespace TableTalk.Filter

/-- The comparison an operator asks for on plain values. -/
def comparator : FilterOp → Comparator
  | .equals => .equals
  | .lessThan => .lessThan
  | .greaterThan => .greaterThan
  | .notEquals => .notEquals

/-- The constraints of comparing a column with a span. -/
def ofInterval (column : Column) (op : FilterOp) (i : Interval) : List Constraint :=
  let name := column.storageName
  let start := i.start.stored
  let stop := i.stop.stored
  let isRange := column.type = .dateRange
  match op with
  | .equals =>
      if isRange then [.single name .equals i.stored]
      else [.single name .greaterThanEquals start, .single name .lessThan stop]
  | .lessThan => [.single name .lessThan start]
  | .greaterThan => [.single name .greaterThanEquals stop]
  | .notEquals =>
      if isRange then [.single name .notEquals i.stored]
      else [.either name ⟨.lessThan, start⟩ ⟨.greaterThanEquals, stop⟩]

/-- The constraints of comparing a column with an instant.  No span is equal to one. -/
def ofInstant (column : Column) (op : FilterOp) (t : Instant) :
    Except Rejection (List Constraint) :=
  if op = .equals ∧ column.type = .dateRange then
    .error (.rangeEqualityNeedsInterval column.displayName)
  else .ok [.single column.storageName (comparator op) t.stored]

/-- The constraints of a filter on a column with a typed value. -/
def constraints (now : Instant) (column : Column) (op : FilterOp) (value : Text) :
    Except Rejection (List Constraint) :=
  if column.type.isTemporal then
    match Interval.ofTyped? now value with
    | some i => .ok (ofInterval column op i)
    | none =>
        match Instant.ofTyped? now value with
        | some t => ofInstant column op t
        | none => .error (.invalidValue column.displayName value)
  else
    match Value.normalize now column value with
    | .ok stored => .ok [.single column.storageName (comparator op) stored]
    | .error e => .error e

end TableTalk.Filter
