import TableTalk.Message.Request
import TableTalk.Query.Plan
import TableTalk.Slot.FreeWindows

/-!
# Replies to queries

A query for rows is answered with cells as `label:value`, joined by commas, and
rows joined by semicolons, at most so many as the limit says.  A query for free
windows lifts the constraints on its column out of the query, reads all occupied
spans in order of their starts and folds the constraints in afterwards.
-/

namespace TableTalk.Reply

/-- The text for a query that no row satisfies. -/
def noRows : Text := "No rows found.".toList

def cell (column : Column) (value : Text) : Text :=
  column.replyLabel ++ ':' :: value

def row (columns : List Column) (values : Row) : Text :=
  Text.join [','] (List.zipWith cell columns values)

/-- The first `limit` rows as text. -/
def rows (columns : List Column) (found : List Row) (limit : Nat) : Text :=
  if found.isEmpty then noRows
  else Text.join [';'] ((found.take limit).map (row columns))

/-- Answer a plan with rows. -/
def withRows (limit : Nat) (table : Table) (plan : Plan) : Program (Except Rejection Text) :=
  .ask (.select table plan.query (plan.projection.map Column.storageName)) fun (found : List Row) =>
    .done (.ok (rows plan.projection found limit))

/-- Answer a plan with free windows. -/
def withWindows (table : Table) (plan : Plan) (slot : SlotRequest) :
    Program (Except Rejection Text) :=
  let column := slot.column.storageName
  let query := (plan.query.withoutConstraintsOn column).setOrderBy column .ascending
  .ask (.select table query [column]) fun (found : List Row) =>
    .done (FreeWindows.reply slot.seconds (found.filterMap List.head?)
      (plan.query.constraintsOn column))

/-- Answer a plan. -/
def toPlan (limit : Nat) (table : Table) (plan : Plan) : Program (Except Rejection Text) :=
  match plan.slot with
  | some slot => withWindows table plan slot
  | none => withRows limit table plan

end TableTalk.Reply
