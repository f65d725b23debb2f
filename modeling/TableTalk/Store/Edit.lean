import TableTalk.Json
import TableTalk.Number.Decimal
import TableTalk.Store.Write

/-!
# Editing stored descriptions

The owner of a database may change stored column descriptions with tools of
their own, and nothing checks what is written then.  A mark or a list that does
not read any more stays unreadable until it is overwritten.
-/

namespace TableTalk

/-- Parts of a stored column description. -/
inductive ColumnField where
  | position
  | storageName
  | displayName
  | replyName
  | columnType
  | writable
  | options
deriving DecidableEq, Repr

namespace ColumnField

/-- The name of a part in the database. -/
def name : ColumnField → Text
  | position => "position".toList
  | storageName => "storage_name".toList
  | displayName => "display_name".toList
  | replyName => "sms_label".toList
  | columnType => "column_type".toList
  | writable => "sms_in".toList
  | options => "options".toList

def all : List ColumnField :=
  [position, storageName, displayName, replyName, columnType, writable, options]

def ofName? (t : Text) : Option ColumnField :=
  all.find? fun f => f.name == t

end ColumnField

namespace StoredColumn

/-- The whole number a text writes. -/
def whole? (t : Text) : Option Int :=
  match Decimal.read t with
  | none => none
  | some d =>
      let scale := Nat.pow 10 d.exponent.natAbs
      let size : Option Nat :=
        if d.exponent.natAbs > 400 then none
        else if 0 ≤ d.exponent then some (d.coefficient * scale)
        else if d.coefficient % scale = 0 then some (d.coefficient / scale) else none
      size.map fun n => if d.negative then -(n : Int) else n

/-- Overwrite a part of a description that must have a value. -/
def set (c : StoredColumn) (value : Text) : ColumnField → StoredColumn
  | .position => { c with position := (whole? value).getD c.position }
  | .storageName => { c with storageName := value }
  | .displayName => { c with displayName := value }
  | .replyName => { c with replyName := some value }
  | .columnType => { c with typeName := value }
  | .writable => { c with writable := (whole? value).map (· != 0) }
  | .options => { c with options := (Json.read value).bind Json.texts? }

end StoredColumn

namespace Database

/-- The descriptions of a table with a part of one overwritten. -/
def editDescribed (field : ColumnField) (value : Option Text) (column : Text)
    (described : List StoredColumn) : Except Failure (List StoredColumn) :=
  match value, field with
  | none, .replyName =>
      .ok (described.map fun c =>
        if c.storageName = column then { c with replyName := none } else c)
  | none, field => reject (.missingValue ("_columns.".toList ++ field.name))
  | some value, field =>
      if field = .storageName ∧ value ≠ column ∧ described.any (·.storageName == value) then
        reject (.notUnique "_columns.table_id, _columns.storage_name".toList)
      else .ok (described.map fun c => if c.storageName = column then c.set value field else c)

/-- Overwrite a part of the description of a column, if there is such a column. -/
def editColumn (db : Database) (id column : Text) (field : ColumnField) (value : Option Text) :
    Except Failure (Database × Nat) :=
  match db.withId id with
  | none => .ok (db, 0)
  | some t =>
      if t.described.any (·.storageName == column) then
        match editDescribed field value column t.described with
        | .error e => .error e
        | .ok described =>
            .ok ({ db with tables := db.tables.map fun t =>
              if t.id = id then { t with described := described } else t }, 1)
      else .ok (db, 0)

end Database

end TableTalk
