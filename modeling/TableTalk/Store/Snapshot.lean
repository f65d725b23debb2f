import TableTalk.Json
import TableTalk.Store.Database

/-!
# Snapshots of a database

Between runs a database is kept as a text: a JSON list of its tables.  A missing
value is `null`.  The empty text is an empty database, and a text of any other
form is not a database.
-/

namespace TableTalk.Snapshot

/-- A text or nothing. -/
def writeOptional : Option Text → Text
  | some t => Json.writeText t
  | none => "null".toList

def writeList (items : List Text) : Text :=
  '[' :: Text.join [','] items ++ [']']

def writeInt (n : Int) : Text :=
  if n < 0 then '-' :: Nat.toDigits 10 n.natAbs else Nat.toDigits 10 n.natAbs

/-- A mark that may be unreadable. -/
def writeMark : Option Bool → Text
  | some true => "true".toList
  | some false => "false".toList
  | none => "null".toList

def writeColumn (c : StoredColumn) : Text :=
  let options := match c.options with
    | some texts => Json.writeTexts texts
    | none => "null".toList
  writeList [writeInt c.position, Json.writeText c.storageName, Json.writeText c.displayName,
    writeOptional c.replyName, Json.writeText c.typeName, writeMark c.writable, options]

def writeRow (r : StoredRow) : Text :=
  writeList [writeOptional r.saved, writeOptional r.phone, writeOptional r.timestamp,
    writeList (r.values.map fun v => Json.writeTexts [v.1, v.2])]

def writeTable (t : StoredTable) : Text :=
  writeList [Json.writeText t.id, Json.writeText t.displayName, Json.writeText t.kind.name,
    writeOptional t.accessTable, writeList (t.described.map writeColumn),
    Json.writeTexts t.columns, writeList (t.rows.map writeRow)]

/-- The snapshot of a database. -/
def write (db : Database) : Text :=
  writeList (db.tables.map writeTable)

/-- Read a text or nothing. -/
def optional? : Json → Option (Option Text)
  | .null => some none
  | .string (some t) => some (some t)
  | _ => none

def int? : Json → Option Int
  | .number ('-' :: digits) => some (-(Nat.ofDigitChars 10 digits 0 : Int))
  | .number digits => some (Nat.ofDigitChars 10 digits 0 : Int)
  | _ => none

def mark? : Json → Option (Option Bool)
  | .null => some none
  | .bool b => some (some b)
  | _ => none

def list? {α : Type} (item : Json → Option α) : Json → Option (List α)
  | .array items => items.mapM item
  | _ => none

def options? : Json → Option (Option (List Text))
  | .null => some none
  | value => value.texts?.map some

def column? : Json → Option StoredColumn
  | .array [position, storageName, displayName, replyName, typeName, writable, options] => do
      return ⟨← int? position, ← storageName.text?, ← displayName.text?, ← optional? replyName,
        ← typeName.text?, ← mark? writable, ← options? options⟩
  | _ => none

/-- Read a name and its value. -/
def value? (value : Json) : Option (Text × Text) :=
  match value.texts? with
  | some [name, text] => some (name, text)
  | _ => none

def row? : Json → Option StoredRow
  | .array [saved, phone, timestamp, values] => do
      return ⟨← optional? saved, ← optional? phone, ← optional? timestamp, ← list? value? values⟩
  | _ => none

def kind? (value : Json) : Option TableKind :=
  value.text?.bind fun name =>
    [TableKind.data, TableKind.shortcut, TableKind.access].find? fun k => k.name == name

def table? : Json → Option StoredTable
  | .array [id, displayName, kind, accessTable, described, columns, rows] => do
      return ⟨← id.text?, ← displayName.text?, ← kind? kind, ← optional? accessTable,
        ← list? column? described, ← columns.texts?, ← list? row? rows⟩
  | _ => none

/-- Read a snapshot. -/
def read (t : Text) : Option Database :=
  if t.isEmpty then some .empty
  else ((Json.read t).bind (list? table?)).map fun tables => ⟨tables⟩

end TableTalk.Snapshot
