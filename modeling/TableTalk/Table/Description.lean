import TableTalk.Json
import TableTalk.Table.Column

/-!
# Table descriptions

The JSON description an owner writes to define a table.  Columns and tables are
objects, or lists of their fields in order.  A field may be given once; fields
of other names are passed over.  Fields with a default may be left out, and at
the end of a list as well.  A column type is its name, or an object with that
name as its only key and `null` as the value.
-/

namespace TableTalk.Description

/-- The value of a field that may be given at most once. -/
def field? (members : List (Text × Json)) (name : String) : Option (Option Json) :=
  match members.filter fun m => m.1 == name.toList with
  | [] => some none
  | [m] => some (some m.2)
  | _ => none

/-- The members of an object whose keys are all texts. -/
def members? : List (Option Text × Json) → Option (List (Text × Json))
  | [] => some []
  | (key, value) :: rest => do
      let key ← key
      let rest ← members? rest
      return (key, value) :: rest

/-- The fields of an object or of a list, in order; `none` for one left out. -/
def fields? (names : List String) : Json → Option (List (Option Json))
  | .object members => do
      let members ← members? members
      names.mapM (field? members)
  | .array items =>
      if items.length ≤ names.length then
        some (items.map some ++ List.replicate (names.length - items.length) none)
      else none
  | _ => none

/-- An optional text: left out, `null` or a string. -/
def optionalText? : Option Json → Option (Option Text)
  | none => some none
  | some .null => some none
  | some value => value.text?.map some

/-- A truth value, true when left out. -/
def flag? : Option Json → Option Bool
  | none => some true
  | some (.bool b) => some b
  | some _ => none

/-- A list of texts, empty when left out. -/
def texts? : Option Json → Option (List Text)
  | none => some []
  | some value => value.texts?

def columnType? : Json → Option ColumnType
  | .string (some name) => ColumnType.ofName? name
  | .object [(some name, .null)] => ColumnType.ofName? name
  | _ => none

def column? (value : Json) : Option Column := do
  match ← fields? ["storage_name", "display_name", "sms_label", "column_type", "sms_in",
      "options"] value with
  | [some storageName, some displayName, replyName, some type, writable, options] =>
      return {
        storageName := ← storageName.text?
        displayName := ← displayName.text?
        replyName := ← optionalText? replyName
        type := ← columnType? type
        writable := ← flag? writable
        options := ← texts? options }
  | _ => none

def columns? : Json → Option (List Column)
  | .array items => items.mapM column?
  | _ => none

def table? (value : Json) : Option Table := do
  match ← fields? ["id", "display_name", "columns", "access_table"] value with
  | [some id, some displayName, some columns, accessTable] =>
      return {
        id := ← id.text?
        displayName := ← displayName.text?
        columns := ← columns? columns
        accessTable := ← optionalText? accessTable }
  | _ => none

/-- Read the text of a description. -/
def read (t : Text) : Option Table :=
  (Json.read t).bind table?

end TableTalk.Description
