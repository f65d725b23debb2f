import TableTalk.Store.Database
import TableTalk.Query.Match

/-!
# Reading from the database

Looking up tables, shortcuts and credentials, and selecting rows.  A selection
gives the finished rows that satisfy every constraint.  A missing value
satisfies no comparison, comes before every other in an ordering, and is given
as the empty text; rows that are equal under the ordering stay in the order
they were written.  A statement that is too large is refused.
-/

namespace TableTalk

/-- What a name in a statement stands for on one row. -/
inductive Cell where
  | missing
  /-- The number of the row -/
  | rowNumber (n : Nat)
  | text (t : Text)
deriving DecidableEq, Repr

namespace Cell

/-- A cell in an ordering, with numbers before texts. -/
inductive Key where
  | missing
  | number (units : Int)
  | text (t : Text)
deriving DecidableEq, Repr

/-- Binary64 units of a row number. -/
def rowUnits (n : Nat) : Int := n * Nat.pow 2 1074

/-- The key of a cell, as a number or as it is. -/
def key (numeric : Bool) : Cell → Key
  | missing => .missing
  | rowNumber n => .number (rowUnits n)
  | text t => if numeric then .number t.real else .text t

def Key.order : Key → Key → Ordering
  | missing, missing => .eq
  | missing, _ => .lt
  | _, missing => .gt
  | number a, number b => compare a b
  | number _, text _ => .lt
  | text _, number _ => .gt
  | text a, text b => Text.order a b

/-- The key of a value compared with a row number: the number it writes, if it
writes one. -/
def rowNumberKey (numeric : Bool) (value : Text) : Key :=
  if numeric || (Decimal.read (Decimal.trimCell value)).isSome then .number value.real
  else .text value

/-- A comparison holds of a cell; of a missing value none does. -/
def satisfies (numeric : Bool) (c : Comparison) : Cell → Bool
  | missing => false
  | rowNumber n =>
      c.comparator.admits (Key.order (.number (rowUnits n)) (rowNumberKey numeric c.value))
  | text t => c.holds numeric t

end Cell

namespace StoredTable

/-- Names that stand for the number of a row. -/
def rowNumberNames : List Text :=
  ["_id".toList, "rowid".toList, "oid".toList, "_rowid_".toList]

/-- The cell a name stands for on a numbered row.  A quoted name that is no
column is a text itself. -/
def cell (t : StoredTable) (row : Nat × StoredRow) (name : Text) : Cell :=
  let ofValue (v : Option Text) : Cell := match v with
    | some t => .text t
    | none => .missing
  let low := Text.lower name
  if low = Bookkeeping.saved then ofValue row.2.saved
  else if low = Bookkeeping.phone then ofValue row.2.phone
  else if low = Bookkeeping.timestamp then ofValue row.2.timestamp
  else
    match t.columnNamed name with
    | some column => ofValue (row.2.value? column)
    | none => if rowNumberNames.contains low then .rowNumber row.1 else .text name

/-- The rows with their numbers, from 1. -/
def numberedRows (t : StoredTable) : List (Nat × StoredRow) :=
  (List.range' 1 t.rows.length).zip t.rows

end StoredTable

/-- Read the stored description of a column. -/
def StoredColumn.column (c : StoredColumn) : Except Failure Column :=
  match c.writable with
  | none => .error (.database .wrongType none)
  | some writable =>
      match ColumnType.ofName? c.typeName with
      | none => .error (.definition (.unknownColumnType c.typeName))
      | some type =>
          match c.options with
          | none => .error .serialization
          | some options =>
              .ok ⟨c.storageName, c.displayName, c.replyName, type, writable, options⟩

/-- Read the stored description of a table. -/
def StoredTable.table (t : StoredTable) : Except Failure Table :=
  match (t.described.mergeSort fun a b => a.position ≤ b.position).mapM StoredColumn.column with
  | .error e => .error e
  | .ok columns => .ok ⟨t.id, t.displayName, columns, t.accessTable⟩

namespace Database

/-- The data table with a display name. -/
def findTable (db : Database) (displayName : Text) : Except Failure (Option Table) :=
  match db.tables.find? fun t => t.kind == .data && t.displayName == displayName with
  | none => .ok none
  | some t => t.table.map some

/-- The shortcut in a row of a shortcut table; a missing part is empty. -/
def shortcutOfRow (r : StoredRow) : Shortcut where
  name := (r.value? "label".toList).getD []
  input := (r.value? "input".toList).getD []
  output := (r.value? "output".toList).getD []

/-- The finished shortcuts of a table. -/
def shortcutsOf (t : StoredTable) : List Shortcut :=
  (t.rows.filter StoredRow.isComplete).map shortcutOfRow

/-- All shortcuts, by the ids of their tables in ascending order. -/
def shortcuts (db : Database) : List Shortcut :=
  ((db.tables.filter fun t => t.kind == .shortcut).mergeSort fun a b => ¬ b.id < a.id).flatMap
    shortcutsOf

/-- The failure of looking for credentials in a table without a column; it points at the column. -/
def noCredentialColumn (id column : Text) : Failure :=
  .database (.noSuchColumn column)
    (Statement.place (Statement.credential id) (column ++ " = ?".toList))

/-- Whether a table pairs a phone with a password. -/
def hasCredential (db : Database) (id phone password : Text) : Except Failure Bool :=
  if !Statement.isName id then .error (.definition (.invalidIdentifier id))
  else
    match db.named id with
    | none =>
        if ownTables.any fun t => Text.sameLetters t id then
          .error (noCredentialColumn id Bookkeeping.saved)
        else .error (.database (.noSuchTable id) none)
    | some t =>
        match ["phone".toList, "password".toList].find? fun c => (t.columnNamed c).isNone with
        | some column => .error (noCredentialColumn id column)
        | none =>
            let own (c : Text) := (t.columnNamed c).getD c
            .ok (t.rows.any fun r =>
              r.isComplete && r.value? (own "phone".toList) == some phone &&
                r.value? (own "password".toList) == some password)

/-- A row satisfies a constraint. -/
def rowSatisfies (stored : StoredTable) (table : Table) (row : Nat × StoredRow)
    (c : Constraint) : Bool :=
  c.comparisons.any fun x =>
    (stored.cell row c.column).satisfies (Statement.isNumeric table c.column) x

/-- The finished rows that satisfy a query, in the order they were written. -/
def matching (stored : StoredTable) (table : Table) (query : Query) : List (Nat × StoredRow) :=
  stored.numberedRows.filter fun row =>
    row.2.isComplete && query.constraints.all (rowSatisfies stored table row)

/-- Rows in an ordering. -/
def sorted (stored : StoredTable) (table : Table) (order : Option OrderBy)
    (rows : List (Nat × StoredRow)) : List (Nat × StoredRow) :=
  match order with
  | none => rows
  | some o =>
      let key (row : Nat × StoredRow) :=
        (stored.cell row o.column).key (Statement.isNumeric table o.column)
      match o.order with
      | .ascending => rows.mergeSort fun a b => Cell.Key.order (key a) (key b) != .gt
      | .descending => rows.mergeSort fun a b => Cell.Key.order (key b) (key a) != .gt

/-- The text of a selected cell.  Row numbers are no texts. -/
def cellText : Cell → Except Failure Text
  | .missing => .ok []
  | .text t => .ok t
  | .rowNumber _ => .error (.database .wrongType none)

/-- Select columns of the rows that satisfy a query.  Conditions are too deep as soon as
they are read, and columns are counted when the table has been found. -/
def select (db : Database) (table : Table) (query : Query) (columns : List Text) :
    Except Failure (List Row) :=
  match Statement.select table query columns with
  | .error issue => .error (.definition issue)
  | .ok statement =>
      if columns.isEmpty then
        .error (.database (.syntaxError "FROM".toList) (Statement.place statement "FROM".toList))
      else if Statement.maxDepth < Statement.depth table query then
        .error (.database (.tooDeep Statement.maxDepth) none)
      else
        match db.named table.id with
        | none =>
            if !ownTables.any fun t => Text.sameLetters t table.id then
              .error (.database (.noSuchTable table.id) none)
            else if Statement.maxColumns < columns.length then
              .error (.database .tooManyColumns none)
            else
              .error (.database (.noSuchColumn Bookkeeping.saved)
                (Statement.place statement (Bookkeeping.saved ++ " = ?".toList)))
        | some stored =>
            if Statement.maxColumns < columns.length then
              .error (.database .tooManyColumns none)
            else
              (sorted stored table query.orderBy (matching stored table query)).mapM fun row =>
                columns.mapM fun column => cellText (stored.cell row column)

end Database

end TableTalk
