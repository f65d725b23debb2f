import TableTalk.Query.Filter

/-!
# Query plans

The segments of a query are taken one by one into a plan: filters add
constraints, the last ordering counts, columns are printed in the order asked
for, and at most one segment asks for free windows.  A plan must ask for
something.
-/

namespace TableTalk

/-- A request for the free windows of a span column. -/
structure SlotRequest where
  /-- Column of occupied spans -/
  column : Column
  /-- Least length of a window, in seconds -/
  seconds : Nat
deriving DecidableEq, Repr

/-- A compiled query. -/
structure Plan where
  query : Query := {}
  /-- Columns to print, in the order asked for -/
  projection : List Column := []
  /-- Free windows to look for -/
  slot : Option SlotRequest := none
deriving DecidableEq, Repr

namespace Plan

/-- The value of a segment that must have one. -/
def requiredValue (s : Segment) (column : Column) : Except Rejection Text :=
  match s.value with
  | some value => .ok value
  | none => .error (.missingValue column.displayName)

/-- The direction an ordering value asks for. -/
def direction : Option Text → SortOrder
  | some ('d' :: _) => .descending
  | _ => .ascending

/-- The request for free windows a segment makes of a column. -/
def slotRequest (s : Segment) (column : Column) : Except Rejection SlotRequest :=
  if column.type ≠ .dateRange then .error (.slotColumnNotRange column.displayName)
  else
    match requiredValue s column with
    | .error e => .error e
    | .ok value =>
        match Duration.read value with
        | some seconds => .ok ⟨column, seconds⟩
        | none => .error (.invalidDuration value)

/-- Take a segment on a column into a plan. -/
def takeOn (now : Instant) (p : Plan) (s : Segment) (column : Column) : Except Rejection Plan :=
  match s.marker with
  | .project => .ok { p with projection := p.projection ++ [column] }
  | .order =>
      .ok { p with query := p.query.setOrderBy column.storageName (direction s.value) }
  | .slot =>
      if p.slot.isSome then .error .duplicateSlot
      else
        match slotRequest s column with
        | .error e => .error e
        | .ok slot => .ok { p with slot := some slot }
  | .filter op =>
      match requiredValue s column with
      | .error e => .error e
      | .ok value =>
          match Filter.constraints now column op value with
          | .error e => .error e
          | .ok cs => .ok { p with query := cs.foldl Query.addConstraint p.query }

/-- Take a segment into a plan. -/
def take (now : Instant) (table : Table) (p : Plan) (s : Segment) : Except Rejection Plan :=
  match table.columnByLabel s.label with
  | none => .error (.unknownColumn s.label)
  | some column => takeOn now p s column

/-- The plan asks for columns or for free windows. -/
def asksSomething (p : Plan) : Bool :=
  !p.projection.isEmpty || p.slot.isSome

/-- The plan of query arguments. -/
def compile (now : Instant) (table : Table) (args : Text) : Except Rejection Plan :=
  match (Segment.split args).foldlM (take now table) {} with
  | .error e => .error e
  | .ok p => if p.asksSomething then .ok p else .error .noOutputColumns

end Plan

end TableTalk
