import TableTalk.Text.Blank

/-!
# Columns and tables

What the owner of a table tells about it: how each column is called in storage,
in messages and in replies, what its values are, and whether messages may write
it.  A table may name an access table whose credentials guard it.

Labels are matched exactly; the first column with a label is the one meant.
-/

namespace TableTalk

/-- Kinds of values a column holds. -/
inductive ColumnType where
  | text
  | number
  | date
  | dateTime
  | time
  /-- A span between two instants -/
  | dateRange
  /-- One of the column's options -/
  | multipleChoice
deriving DecidableEq, Repr

namespace ColumnType

def all : List ColumnType :=
  [text, number, date, dateTime, time, dateRange, multipleChoice]

/-- The name of a type in stored definitions. -/
def name : ColumnType → Text
  | text => "text".toList
  | number => "number".toList
  | date => "date".toList
  | dateTime => "date_time".toList
  | time => "time".toList
  | dateRange => "date_range".toList
  | multipleChoice => "multiple_choice".toList

def ofName? (t : Text) : Option ColumnType :=
  all.find? fun type => type.name == t

/-- Values of the type are instants or spans. -/
def isTemporal : ColumnType → Bool
  | date | dateTime | time | dateRange => true
  | text | number | multipleChoice => false

@[simp] theorem ofName?_name (type : ColumnType) : ofName? type.name = some type := by
  cases type <;> decide

end ColumnType

/-- One column of a table. -/
structure Column where
  storageName : Text
  /-- Label used in messages -/
  displayName : Text
  /-- Label used in replies, if it differs -/
  replyName : Option Text := none
  type : ColumnType
  /-- Messages may write it -/
  writable : Bool := true
  /-- Allowed values of a multiple-choice column -/
  options : List Text := []
deriving DecidableEq, Repr

namespace Column

/-- The label printed next to values in replies. -/
def replyLabel (c : Column) : Text :=
  c.replyName.getD c.displayName

end Column

/-- A table addressable by its display name. -/
structure Table where
  id : Text
  /-- Name used in messages -/
  displayName : Text
  /-- Columns, in declaration order -/
  columns : List Column
  /-- Access table that guards it -/
  accessTable : Option Text := none
deriving DecidableEq, Repr

namespace Table

def columnByLabel (t : Table) (label : Text) : Option Column :=
  t.columns.find? fun c => c.displayName == label

def columnByStorageName (t : Table) (name : Text) : Option Column :=
  t.columns.find? fun c => c.storageName == name

end Table

/-- A named abbreviation of messages: the text after the name is matched against
the input pattern and the output pattern becomes the message. -/
structure Shortcut where
  name : Text
  /-- Pattern of the text after the name -/
  input : Text
  /-- Pattern of the new message -/
  output : Text
deriving DecidableEq, Repr

/-- A text message from a phone. -/
structure Message where
  sender : Text
  body : Text
deriving DecidableEq, Repr

/-- The values of one row, in ascending order of storage names, without repeats. -/
abbrev RowValues := List (Text × Text)

/-- The cells of one row of an answer, in the order asked for. -/
abbrev Row := List Text

end TableTalk
