import TableTalk.Store.Database
import TableTalk.Time.Stored

/-!
# Writing to the database

Defining a table, adding a shortcut, granting a credential and inserting a row.
Every operation gives the new database, or a failure with nothing changed.
Names are checked first, then the rules between registered tables, then the
rules on names in statements.
-/

namespace TableTalk

/-- One more value in a row to write: the column and its value, if any. -/
abbrev CellWrite := Text × Option Text

namespace Database

/-- A failure of a definition. -/
def refuse {α : Type} (issue : DefinitionIssue) : Except Failure α :=
  .error (.definition issue)

/-- A failure of the database that points at no place in a statement. -/
def reject {α : Type} (issue : DatabaseIssue) : Except Failure α :=
  .error (.database issue none)

/-- Check one column of a table to be defined. -/
def checkColumn (c : Column) : Except Failure Unit :=
  match c.storageName with
  | '_' :: _ => refuse (.reservedColumn c.storageName)
  | name =>
      if c.type = .multipleChoice ∧ c.options = [] then refuse (.noOptions c.displayName)
      else if Statement.isName name then .ok ()
      else refuse (.invalidIdentifier name)

/-- Check the columns of a table to be defined, in order. -/
def checkColumns : List Column → Except Failure Unit
  | [] => .ok ()
  | c :: rest =>
      match checkColumn c with
      | .error e => .error e
      | .ok () => checkColumns rest

/-- The first name that repeats an earlier one up to case. -/
def repeatedName : List Text → List Text → Option Text
  | _, [] => none
  | seen, name :: rest =>
      if seen.any fun s => Text.sameLetters s name then some name
      else repeatedName (name :: seen) rest

/-- Check that a table with an id and columns can be created. -/
def checkCreate (db : Database) (id : Text) (columns : List Text) (written : List Text) :
    Except Failure Unit :=
  if (Text.after? reservedStart (Text.lower id)).isSome then reject (.reservedName id)
  else if (ownTables ++ db.tables.map StoredTable.id).any fun t => Text.sameLetters t id then
    .error (.database (.tableExists id)
      (Statement.place (Statement.createTable id written) ('"' :: id ++ ['"'])))
  else if ownIndexes.any fun i => Text.sameLetters i id then reject (.indexExists id)
  else
    match repeatedName [] columns with
    | some name => reject (.duplicateColumn name)
    | none => .ok ()

/-- Check that a table can be registered under an id, a display name and a kind. -/
def checkRegister (db : Database) (id displayName : Text) (kind : TableKind) :
    Except Failure Unit :=
  if db.tables.any fun t => t.kind == kind && t.displayName == displayName then
    reject (.notUnique "_tables.kind, _tables.display_name".toList)
  else if (db.withId id).isSome then reject (.notUnique "_tables.id".toList)
  else .ok ()

/-- The stored description of the column at a position. -/
def describe (position : Nat) (c : Column) : StoredColumn where
  position := position
  storageName := c.storageName
  displayName := c.displayName
  replyName := c.replyName
  typeName := c.type.name
  writable := some c.writable
  options := some c.options

/-- The stored descriptions of columns, in order. -/
def describeFrom : Nat → List Column → List StoredColumn
  | _, [] => []
  | n, c :: rest => describe n c :: describeFrom (n + 1) rest

/-- The stored form of a new table. -/
def newTable (t : Table) : StoredTable where
  id := t.id
  displayName := t.displayName
  kind := .data
  accessTable := t.accessTable
  described := describeFrom 0 t.columns
  columns := t.columns.map Column.storageName
  rows := []

def define (db : Database) (t : Table) : Except Failure Database := do
  if !Statement.isName t.id then
    refuse (.invalidIdentifier t.id)
  if t.columns.isEmpty then
    refuse (.noColumns t.displayName)
  checkColumns t.columns
  checkRegister db t.id t.displayName .data
  let names := t.columns.map Column.storageName
  if !names.Nodup then
    reject (.notUnique "_columns.table_id, _columns.storage_name".toList)
  checkCreate db t.id names (names.map fun n => '"' :: n ++ ['"'])
  return { db with tables := db.tables ++ [newTable t] }

/-- The stored form of a new helper table. -/
def newHelper (id : Text) (kind : TableKind) (columns : List Text) : StoredTable where
  id := id
  displayName := id
  kind := kind
  accessTable := none
  described := []
  columns := columns
  rows := []

/-- The database with a helper table of a kind, created if it does not exist. -/
def ensureHelper (db : Database) (id : Text) (kind : TableKind) (columns : List Text) :
    Except Failure Database :=
  if !Statement.isName id then refuse (.invalidIdentifier id)
  else
    match db.withId id with
    | some t => if t.kind = kind then .ok db else refuse (.otherKind id t.kind.name)
    | none =>
        match checkRegister db id id kind with
        | .error e => .error e
        | .ok () =>
            match checkCreate db id columns columns with
            | .error e => .error e
            | .ok () => .ok { db with tables := db.tables ++ [newHelper id kind columns] }

/-- Put one cell into a row.  Of two values for one column the first counts. -/
def writeCell (table : StoredTable) (name : Text) (row : StoredRow) (cell : CellWrite) :
    Except Failure StoredRow :=
  let column := Text.lower cell.1
  if column = Bookkeeping.saved then
    .ok { row with saved := row.saved.orElse fun _ => cell.2 }
  else if column = Bookkeeping.phone then
    .ok { row with phone := row.phone.orElse fun _ => cell.2 }
  else if column = Bookkeeping.timestamp then
    .ok { row with timestamp := row.timestamp.orElse fun _ => cell.2 }
  else
    match table.columnNamed cell.1 with
    | none => reject (.tableHasNoColumn name cell.1)
    | some column =>
        match cell.2 with
        | none => .ok row
        | some value =>
            if (row.value? column).isSome then .ok row
            else .ok { row with values := row.values ++ [(column, value)] }

/-- Write a row of the given cells at the end of the table a statement names. -/
def append (db : Database) (name : Text) (cells : List CellWrite) : Except Failure Database :=
  match db.named name with
  | none =>
      if ownTables.any fun t => Text.sameLetters t name then
        reject (.tableHasNoColumn name ((cells.head?.map Prod.fst).getD Bookkeeping.saved))
      else reject (.noSuchTable name)
  | some table =>
      match cells.foldlM (writeCell table name) ⟨none, none, none, []⟩ with
      | .error e => .error e
      | .ok row => .ok (db.update name fun t => { t with rows := t.rows ++ [row] })

/-- Check that texts are names, in order. -/
def checkNames : List Text → Except Failure Unit
  | [] => .ok ()
  | name :: rest =>
      if Statement.isName name then checkNames rest else refuse (.invalidIdentifier name)

/-- Write a finished row. -/
def insertComplete (db : Database) (stamp : Instant) (id : Text) (values : List (Text × Text))
    (phone : Text) : Except Failure Database :=
  match checkNames (id :: values.map Prod.fst) with
  | .error e => .error e
  | .ok () =>
      db.append id (values.map (fun v => (v.1, some v.2)) ++
        [(Bookkeeping.saved, some Bookkeeping.complete), (Bookkeeping.phone, some phone),
         (Bookkeeping.timestamp, some stamp.stored)])

def shortcutColumns : List Text := ["label".toList, "input".toList, "output".toList]

def accessColumns : List Text := ["phone".toList, "password".toList]

/-- Add a shortcut to a shortcut table, created if it does not exist. -/
def addShortcut (db : Database) (stamp : Instant) (id : Text) (s : Shortcut) :
    Except Failure Database :=
  match db.ensureHelper id .shortcut shortcutColumns with
  | .error e => .error e
  | .ok db => db.insertComplete stamp id (shortcutColumns.zip [s.name, s.input, s.output]) []

/-- Add a credential to an access table, created if it does not exist. -/
def grant (db : Database) (stamp : Instant) (id phone password : Text) :
    Except Failure Database :=
  match db.ensureHelper id .access accessColumns with
  | .error e => .error e
  | .ok db => db.insertComplete stamp id (accessColumns.zip [phone, password]) phone

/-- The first name that is no column of a table. -/
def unknownName (table : Table) (values : RowValues) : Option Text :=
  (values.map Prod.fst).find? fun name => (table.columnByStorageName name).isNone

/-- Insert a finished row into a data table on behalf of a sender. -/
def insert (db : Database) (stamp : Instant) (table : Table) (values : RowValues)
    (sender : Text) : Except Failure Database :=
  match unknownName table values with
  | some name => refuse (.noSuchColumn table.displayName name)
  | none => db.insertComplete stamp table.id values sender

end Database

end TableTalk
