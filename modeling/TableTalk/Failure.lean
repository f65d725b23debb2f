import TableTalk.Text.Quoted

/-!
# Failures of collaborators

A failure is not about the message: storage, transport or configuration did not
do its part.  Each family has a name, and a text where there is one to give.
-/

namespace TableTalk

/-- Why a table, column, shortcut or credential cannot be stored. -/
inductive DefinitionIssue where
  | unknownColumnType (name : Text)
  | noColumns (table : Text)
  /-- The column name is kept for bookkeeping -/
  | reservedColumn (name : Text)
  | noOptions (column : Text)
  /-- The name is not a word of letters, digits and underscores -/
  | invalidIdentifier (name : Text)
  /-- The table exists and is of another kind -/
  | otherKind (table kind : Text)
  | noSuchColumn (table column : Text)
deriving DecidableEq, Repr

namespace DefinitionIssue

/-- The wording of an issue. -/
def message : DefinitionIssue → Text
  | unknownColumnType name => "unknown column type: ".toList ++ name
  | noColumns table => "table ".toList ++ table ++ " has no columns".toList
  | reservedColumn name => "column name ".toList ++ name ++ " is reserved".toList
  | noOptions column => "multiple-choice column ".toList ++ column ++ " has no options".toList
  | invalidIdentifier name => "invalid identifier: ".toList ++ Text.quoted name
  | otherKind table kind =>
      "table ".toList ++ table ++ " already exists as a ".toList ++ kind ++ " table".toList
  | noSuchColumn table column =>
      "table ".toList ++ table ++ " has no column ".toList ++ column

end DefinitionIssue

/-- What a relational database refuses. -/
inductive DatabaseIssue where
  /-- A row repeats the values of columns that must differ -/
  | notUnique (columns : Text)
  /-- A table definition names a column twice -/
  | duplicateColumn (name : Text)
  | tableExists (name : Text)
  | indexExists (name : Text)
  /-- The name is kept for the database itself -/
  | reservedName (name : Text)
  | noSuchTable (name : Text)
  /-- No table of the statement has such a column -/
  | noSuchColumn (name : Text)
  | tableHasNoColumn (table column : Text)
  /-- The statement is not well formed near a word -/
  | syntaxError (near : Text)
  /-- A cell may not be empty -/
  | missingValue (column : Text)
  /-- A cell is not of the type it is read as -/
  | wrongType
  /-- The conditions of a statement are deeper than allowed -/
  | tooDeep (limit : Nat)
  /-- A statement gives more columns than allowed -/
  | tooManyColumns
deriving DecidableEq, Repr

namespace DatabaseIssue

/-- The wording of an issue; some have none. -/
def message : DatabaseIssue → Option Text
  | notUnique columns => some ("UNIQUE constraint failed: ".toList ++ columns)
  | duplicateColumn name => some ("duplicate column name: ".toList ++ name)
  | tableExists name => some ("table \"".toList ++ name ++ "\" already exists".toList)
  | indexExists name => some ("there is already an index named ".toList ++ name)
  | reservedName name => some ("object name reserved for internal use: ".toList ++ name)
  | noSuchTable name => some ("no such table: ".toList ++ name)
  | noSuchColumn name => some ("no such column: ".toList ++ name)
  | tableHasNoColumn table column =>
      some ("table ".toList ++ table ++ " has no column named ".toList ++ column)
  | syntaxError near => some ("near \"".toList ++ near ++ "\": syntax error".toList)
  | missingValue column => some ("NOT NULL constraint failed: ".toList ++ column)
  | wrongType => none
  | tooDeep limit =>
      some ("Expression tree is too large (maximum depth ".toList ++ Nat.toDigits 10 limit ++ [')'])
  | tooManyColumns => some "too many columns in result set".toList

end DatabaseIssue

/-- A place in a statement: the text before it and the text from it on. -/
structure Place where
  /-- What precedes the place -/
  before : Text
  /-- What starts at the place -/
  rest : Text
deriving DecidableEq, Repr

/-- Failures of collaborators. -/
inductive Failure where
  /-- The database refused, pointing at a place in the statement or at none -/
  | database (issue : DatabaseIssue) (place : Option Place)
  /-- A stored text is not of the form expected -/
  | serialization
  /-- Something cannot be stored as defined -/
  | definition (issue : DefinitionIssue)
  /-- A reply was not delivered -/
  | transport (text : Text)
  | other (text : Text)
deriving DecidableEq, Repr

namespace Failure

/-- The full text of a failure. -/
def message : Failure → Text
  | database issue place =>
      let issueText := (issue.message).getD []
      let placeText := match place with
        | some p => " in ".toList ++ p.before ++ p.rest ++ " at offset ".toList ++
            Nat.toDigits 10 p.before.length
        | none => []
      "Database error: ".toList ++ issueText ++ placeText
  | serialization => "Serialization error".toList
  | definition issue => "Invalid table definition: ".toList ++ issue.message
  | transport text => "Transport error: ".toList ++ text
  | other text => text

end Failure

end TableTalk
