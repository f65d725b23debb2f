import TableTalk.Failure
import TableTalk.Table.Column
import TableTalk.Query.Constraint
import TableTalk.Text.Cut

/-!
# Statements in the query language of the database

A structured query is written as a statement with a question mark for every
value, so that values never become part of its text.  Names are quoted, and a
name that is not a word of ASCII letters, digits and underscores is refused.
-/

namespace TableTalk

-- Names of the bookkeeping columns every table has.
namespace Bookkeeping

/-- Number of the row. -/
def id : Text := "_id".toList

/-- Completion mark. -/
def saved : Text := "_saved".toList

def phone : Text := "_phone".toList

def timestamp : Text := "_timestamp".toList

/-- The completion mark of finished rows. -/
def complete : Text := "COMPLETE".toList

end Bookkeeping

namespace Statement

def isNameChar (c : Char) : Bool :=
  c.isAlphanum || c == '_'

/-- The text is a name: not empty, and made of name characters. -/
def isName (t : Text) : Bool :=
  !t.isEmpty && t.all isNameChar

def quoteName (t : Text) : Except DefinitionIssue Text :=
  if isName t then .ok ('"' :: t ++ ['"']) else .error (.invalidIdentifier t)

/-- The column holds numbers, as far as the table describes it. -/
def isNumeric (table : Table) (column : Text) : Bool :=
  match table.columnByStorageName column with
  | some c => c.type == .number
  | none => false

/-- A column in an expression; number columns are read as numbers. -/
def columnExpression (table : Table) (column : Text) : Except DefinitionIssue Text :=
  (quoteName column).map fun quoted =>
    if isNumeric table column then "CAST(".toList ++ quoted ++ " AS REAL)".toList else quoted

def valueExpression (table : Table) (column : Text) : Text :=
  if isNumeric table column then "CAST(? AS REAL)".toList else ['?']

def comparison (table : Table) (column : Text) (c : Comparison) : Except DefinitionIssue Text :=
  (columnExpression table column).map fun left =>
    left ++ ' ' :: c.comparator.sign ++ ' ' :: valueExpression table column

/-- One constraint; two comparisons are alternatives. -/
def condition (table : Table) (c : Constraint) : Except DefinitionIssue Text :=
  match comparison table c.column c.first with
  | .error e => .error e
  | .ok first =>
      match c.second with
      | none => .ok first
      | some second =>
          (comparison table c.column second).map fun second =>
            '(' :: first ++ " OR ".toList ++ second ++ [')']

/-- The ordering; without one, rows come in the order they were written. -/
def ordering (table : Table) : Option OrderBy → Except DefinitionIssue Text
  | none => .ok Bookkeeping.id
  | some o =>
      (columnExpression table o.column).map fun column => column ++ ' ' :: o.order.keyword

/-- The statement that selects columns of the rows satisfying a query. -/
def select (table : Table) (query : Query) (columns : List Text) :
    Except DefinitionIssue Text := do
  let projection ← columns.mapM quoteName
  let conditions ← query.constraints.mapM (condition table)
  let name ← quoteName table.id
  let order ← ordering table query.orderBy
  return "SELECT ".toList ++ Text.join ", ".toList projection ++ " FROM ".toList ++ name ++
    " WHERE ".toList ++
    Text.join " AND ".toList ((Bookkeeping.saved ++ " = ?".toList) :: conditions) ++
    " ORDER BY ".toList ++ order

/-- How deep the conditions of a statement may be. -/
def maxDepth : Nat := 1000

/-- How many columns a statement may give. -/
def maxColumns : Nat := 2000

/-- How deep a comparison is; a cast lies one level deeper. -/
def comparisonDepth (table : Table) (column : Text) : Nat :=
  if isNumeric table column then 3 else 2

def conditionDepth (table : Table) (c : Constraint) : Nat :=
  match c.second with
  | none => comparisonDepth table c.column
  | some _ => comparisonDepth table c.column + 1

/-- How deep the conditions of a query are, which follow the completion mark one by one. -/
def depth (table : Table) (query : Query) : Nat :=
  query.constraints.foldl (fun depth c => max depth (conditionDepth table c) + 1) 2

/-- The values of a selection, in the order of their question marks. -/
def selectValues (query : Query) : List Text :=
  Bookkeeping.complete ::
    query.constraints.flatMap fun c => c.comparisons.map Comparison.value

/-- The statement that creates a table with text columns after the bookkeeping ones. -/
def createTable (id : Text) (columns : List Text) : Text :=
  "CREATE TABLE \"".toList ++ id ++
    "\" (_id INTEGER PRIMARY KEY, _saved TEXT, _phone TEXT, _timestamp TEXT, ".toList ++
    Text.join ", ".toList (columns.map fun c => c ++ " TEXT".toList) ++ ");".toList

/-- The statement that asks whether an access table holds a credential. -/
def credential (id : Text) : Text :=
  "SELECT EXISTS(SELECT 1 FROM \"".toList ++ id ++
    "\" WHERE _saved = ? AND phone = ? AND password = ?)".toList

/-- The place of the first occurrence of a piece in a statement. -/
def place (statement piece : Text) : Option Place :=
  (Text.cutAtPiece piece statement).map fun sides => ⟨sides.1, piece ++ sides.2⟩

end Statement

end TableTalk
