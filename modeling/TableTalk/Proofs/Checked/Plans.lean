import TableTalk.Proofs.Checked.Commands
import TableTalk.Proofs.Checked.Dates
import TableTalk.Query.Plan

/-!
# Rows and plans from checked readings

The row of an add and the plan of a query come from pieces of the arguments and from dates in
them.  Here they are made with the checked cuts and readings.  A refusal of the sender's text is a
result and no fault, so that it ends the work on the text in the same place as before
(`Checked.row_eq`, `Checked.compile_eq`).
-/

namespace TableTalk.Checked

variable (M : Matcher) (now : Instant)

/-! ### Values -/

/-- The stored text of an instant, or of the start of a span. -/
def storedInstant? (input : Text) : Checked (Option Text) := do
  match ← instant? M now input with
  | some t => return some t.stored
  | none => return (← interval? M now input).map fun i => i.start.stored

/-- The stored text of a value, if the column's type admits it. -/
def stored? (column : Column) (input : Text) : Checked (Option Text) :=
  match column.type with
  | .text => return some input
  | .number => return Value.number? input
  | .date | .dateTime | .time => storedInstant? M now input
  | .dateRange => do return (← interval? M now input).map Interval.stored
  | .multipleChoice => return Value.choice? column.options input

/-- The stored text of a value, or why the column refuses it. -/
def normalize (column : Column) (input : Text) : Checked (Except Rejection Text) := do
  match ← stored? M now column input with
  | some value => return .ok value
  | none => return .error (.invalidValue column.displayName input)

theorem storedInstant?_eq (input : Text) :
    storedInstant? M now input = .ok (Value.instant? now input) := by
  simp only [storedInstant?, Value.instant?, instant?_eq, interval?_eq, ok_bind]
  cases Instant.ofTyped? now input with
  | none => rfl
  | some t => rfl

theorem stored?_eq (column : Column) (input : Text) :
    stored? M now column input = .ok (Value.stored? now column input) := by
  simp only [stored?, Value.stored?, storedInstant?_eq, interval?_eq, ok_bind]
  cases column.type <;> rfl

theorem normalize_eq (column : Column) (input : Text) :
    normalize M now column input = .ok (Value.normalize now column input) := by
  simp only [normalize, Value.normalize, stored?_eq, ok_bind]
  cases Value.stored? now column input with
  | none => rfl
  | some value => rfl

/-! ### Adds -/

/-- Put the value of a pair into a row. -/
def put (table : Table) (row : RowValues) (p : Text × Text) :
    Checked (Except Rejection RowValues) :=
  match table.columnByLabel p.1 with
  | none => return .error (.unknownColumn p.1)
  | some column => do
      match ← normalize M now column p.2 with
      | .error e => return .error e
      | .ok value =>
          if column.writable then return .ok (RowValues.set column.storageName value row)
          else return .ok row

/-- The row an add inserts. -/
def row (table : Table) (args : Text) : Checked (Except Rejection RowValues) := do
  match ← pairs args with
  | .error e => return .error e
  | .ok ps => fold (put M now table) [] ps

theorem put_eq (table : Table) (row : RowValues) (p : Text × Text) :
    put M now table row p = .ok (Add.put now table row p) := by
  unfold put Add.put
  cases table.columnByLabel p.1 with
  | none => rfl
  | some column =>
      simp only [normalize_eq, ok_bind]
      cases Value.normalize now column p.2 with
      | error e => rfl
      | ok value =>
          dsimp only
          split <;> rfl

theorem row_eq (table : Table) (args : Text) :
    row M now table args = .ok (Add.row now table args) := by
  simp only [row, Add.row, pairs_eq, ok_bind]
  cases Add.pairs args with
  | error e => rfl
  | ok ps => exact fold_eq_ok_foldlM (put_eq M now table) [] ps

/-! ### Queries -/

/-- The constraints of a filter on a column with a typed value. -/
def constraints (column : Column) (op : FilterOp) (value : Text) :
    Checked (Except Rejection (List Constraint)) :=
  if column.type.isTemporal then do
    match ← interval? M now value with
    | some i => return .ok (Filter.ofInterval column op i)
    | none =>
        match ← instant? M now value with
        | some t => return Filter.ofInstant column op t
        | none => return .error (.invalidValue column.displayName value)
  else do
    match ← normalize M now column value with
    | .ok stored => return .ok [.single column.storageName (Filter.comparator op) stored]
    | .error e => return .error e

/-- The request for free windows a segment makes of a column. -/
def slotRequest (s : Segment) (column : Column) : Checked (Except Rejection SlotRequest) :=
  if column.type ≠ .dateRange then return .error (.slotColumnNotRange column.displayName)
  else
    match Plan.requiredValue s column with
    | .error e => return .error e
    | .ok value => do
        match ← duration? M value with
        | some seconds => return .ok ⟨column, seconds⟩
        | none => return .error (.invalidDuration value)

/-- Take a segment on a column into a plan. -/
def takeOn (p : Plan) (s : Segment) (column : Column) : Checked (Except Rejection Plan) :=
  match s.marker with
  | .project => return .ok { p with projection := p.projection ++ [column] }
  | .order =>
      return .ok { p with query := p.query.setOrderBy column.storageName (Plan.direction s.value) }
  | .slot =>
      if p.slot.isSome then return .error .duplicateSlot
      else do
        match ← slotRequest M s column with
        | .error e => return .error e
        | .ok slot => return .ok { p with slot := some slot }
  | .filter op =>
      match Plan.requiredValue s column with
      | .error e => return .error e
      | .ok value => do
          match ← constraints M now column op value with
          | .error e => return .error e
          | .ok cs => return .ok { p with query := cs.foldl Query.addConstraint p.query }

/-- Take a segment into a plan. -/
def takeSegment (table : Table) (p : Plan) (s : Segment) : Checked (Except Rejection Plan) :=
  match table.columnByLabel s.label with
  | none => return .error (.unknownColumn s.label)
  | some column => takeOn M now p s column

/-- The plan of query arguments. -/
def compile (table : Table) (args : Text) : Checked (Except Rejection Plan) := do
  match ← fold (takeSegment M now table) {} (← segments args) with
  | .error e => return .error e
  | .ok p => return if p.asksSomething then .ok p else .error .noOutputColumns

theorem constraints_eq (column : Column) (op : FilterOp) (value : Text) :
    constraints M now column op value = .ok (Filter.constraints now column op value) := by
  simp only [constraints, Filter.constraints, interval?_eq, instant?_eq, normalize_eq, ok_bind]
  split
  · cases Interval.ofTyped? now value with
    | some i => rfl
    | none =>
        cases Instant.ofTyped? now value with
        | some t => rfl
        | none => rfl
  · cases Value.normalize now column value with
    | ok stored => rfl
    | error e => rfl

theorem slotRequest_eq (s : Segment) (column : Column) :
    slotRequest M s column = .ok (Plan.slotRequest s column) := by
  simp only [slotRequest, Plan.slotRequest, duration?_eq, ok_bind]
  split
  · rfl
  · cases Plan.requiredValue s column with
    | error e => rfl
    | ok value =>
        dsimp only
        cases Duration.read value with
        | some seconds => rfl
        | none => rfl

theorem takeOn_eq (p : Plan) (s : Segment) (column : Column) :
    takeOn M now p s column = .ok (Plan.takeOn now p s column) := by
  simp only [takeOn, Plan.takeOn, slotRequest_eq, constraints_eq, ok_bind]
  cases s.marker with
  | project => rfl
  | order => rfl
  | slot =>
      dsimp only
      split
      · rfl
      · cases Plan.slotRequest s column with
        | error e => rfl
        | ok slot => rfl
  | filter op =>
      cases Plan.requiredValue s column with
      | error e => rfl
      | ok value =>
          dsimp only
          cases Filter.constraints now column op value with
          | error e => rfl
          | ok cs => rfl

theorem takeSegment_eq (table : Table) (p : Plan) (s : Segment) :
    takeSegment M now table p s = .ok (Plan.take now table p s) := by
  unfold takeSegment Plan.take
  cases table.columnByLabel s.label with
  | none => rfl
  | some column => exact takeOn_eq M now p s column

theorem compile_eq (table : Table) (args : Text) :
    compile M now table args = .ok (Plan.compile now table args) := by
  simp only [compile, Plan.compile, segments_eq, ok_bind,
    fold_eq_ok_foldlM (takeSegment_eq M now table)]
  cases (Segment.split args).foldlM (Plan.take now table) {} with
  | error e => rfl
  | ok p => rfl

end TableTalk.Checked
