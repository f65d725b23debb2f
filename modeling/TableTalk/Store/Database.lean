import TableTalk.Store.Statement

/-!
# The database

All stored state is one value: the registered tables in the order of their
registration, each with its description and its rows.  Data tables carry
descriptions of their columns; shortcut and access tables have fixed columns.

Registered ids are compared exactly, while the names of tables and columns in
statements are compared without regard to the case of ASCII letters.
-/

namespace TableTalk

/-- What the rows of a table are. -/
inductive TableKind where
  | data
  | shortcut
  | access
deriving DecidableEq, Repr

namespace TableKind

def name : TableKind → Text
  | data => "data".toList
  | shortcut => "shortcut".toList
  | access => "access".toList

end TableKind

/-- The stored description of a column. -/
structure StoredColumn where
  /-- Rank among the columns -/
  position : Int
  storageName : Text
  displayName : Text
  replyName : Option Text
  typeName : Text
  /-- Messages may write the column; `none` if the stored mark is unreadable -/
  writable : Option Bool
  /-- Options; `none` if the stored list is unreadable -/
  options : Option (List Text)
deriving DecidableEq, Repr

/-- A stored row.  A column without an entry has no value. -/
structure StoredRow where
  saved : Option Text
  phone : Option Text
  timestamp : Option Text
  /-- Values by column name -/
  values : List (Text × Text)
deriving DecidableEq, Repr

namespace StoredRow

/-- The row is finished. -/
def isComplete (r : StoredRow) : Bool :=
  r.saved == some Bookkeeping.complete

def value? (r : StoredRow) (column : Text) : Option Text :=
  r.values.lookup column

end StoredRow

/-- A registered table. -/
structure StoredTable where
  /-- Id, which is also its name in statements -/
  id : Text
  displayName : Text
  kind : TableKind
  accessTable : Option Text
  /-- Descriptions of its columns -/
  described : List StoredColumn
  /-- Its columns besides bookkeeping -/
  columns : List Text
  /-- Its rows, oldest first -/
  rows : List StoredRow
deriving DecidableEq, Repr

namespace StoredTable

/-- The table's own spelling of a column name. -/
def columnNamed (t : StoredTable) (name : Text) : Option Text :=
  t.columns.find? fun c => Text.sameLetters c name

end StoredTable

/-- The registered tables, oldest first. -/
structure Database where
  tables : List StoredTable := []
deriving DecidableEq, Repr

namespace Database

def empty : Database := {}

/-- The registered table with an id. -/
def withId (db : Database) (id : Text) : Option StoredTable :=
  db.tables.find? fun t => t.id == id

/-- The registered table a statement names. -/
def named (db : Database) (name : Text) : Option StoredTable :=
  db.tables.find? fun t => Text.sameLetters t.id name

/-- Tables of the database's own bookkeeping. -/
def ownTables : List Text := ["_tables".toList, "_columns".toList]

/-- Indexes of the database's own bookkeeping. -/
def ownIndexes : List Text :=
  ["idx_tables_display_name".toList, "idx_columns_table_id".toList]

/-- Start of names that no table may have. -/
def reservedStart : Text := "sqlite_".toList

/-- Replace the table a statement names. -/
def update (db : Database) (name : Text) (f : StoredTable → StoredTable) : Database :=
  { db with tables := db.tables.map fun t => if Text.sameLetters t.id name then f t else t }

end Database

end TableTalk
