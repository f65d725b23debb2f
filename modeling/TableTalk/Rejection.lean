import TableTalk.Text.Quoted

/-!
# Why a message is not handled

A rejection is an ordinary outcome: the message asks for something that cannot
be done, nothing is inserted and nothing is answered.  Each cause carries what
its text cites.  `Rejection.reason` groups the causes for counting.
-/

namespace TableTalk

/-- Causes for not handling a message. -/
inductive Rejection where
  /-- The text does not open with an at sign or has no space -/
  | notACommand
  /-- Nothing follows the table name -/
  | missingArguments
  /-- No data table has this display name -/
  | unknownTable (name : Text)
  /-- The table has no column with this label -/
  | unknownColumn (label : Text)
  /-- A label or an operator stands without its value -/
  | missingValue (label : Text)
  /-- The value is not one of the column's -/
  | invalidValue (column value : Text)
  /-- The length of a free window cannot be read -/
  | invalidDuration (value : Text)
  /-- Equality on a span column needs a span -/
  | rangeEqualityNeedsInterval (column : Text)
  /-- Free windows are asked of a column that holds no spans -/
  | slotColumnNotRange (column : Text)
  /-- Free windows are asked twice -/
  | duplicateSlot
  /-- The query asks for nothing -/
  | noOutputColumns
  /-- A stored cell is not a span -/
  | corruptRange (cell : Text)
  /-- The sender may not use the table -/
  | unauthorized (phone : Text)
deriving DecidableEq, Repr

/-- Groups of causes, for counting. -/
inductive Reason where
  | notACommand
  | unresolvableReference
  | unauthorized
  | validation
deriving DecidableEq, Repr

namespace Reason

/-- The name a group is counted under. -/
def name : Reason → Text
  | notACommand => "not_a_command".toList
  | unresolvableReference => "unresolvable_reference".toList
  | unauthorized => "unauthorized".toList
  | validation => "validation".toList

def all : List Reason :=
  [notACommand, unresolvableReference, unauthorized, validation]

end Reason

namespace Rejection

/-- The group a cause belongs to. -/
def reason : Rejection → Reason
  | notACommand => .notACommand
  | missingArguments | unknownTable _ | unknownColumn _ => .unresolvableReference
  | unauthorized _ => .unauthorized
  | missingValue _ | invalidValue _ _ | invalidDuration _ | rangeEqualityNeedsInterval _
  | slotColumnNotRange _ | duplicateSlot | noOutputColumns | corruptRange _ => .validation

/-- The wording of a cause. -/
def message : Rejection → Text
  | notACommand => "not a command".toList
  | missingArguments => "command has no arguments".toList
  | unknownTable name => "unknown table: ".toList ++ name
  | unknownColumn label => "unknown column: ".toList ++ label
  | missingValue label => "missing value for column: ".toList ++ label
  | invalidValue column value =>
      "invalid value ".toList ++ Text.quoted value ++ " for column ".toList ++ column
  | invalidDuration value => "invalid duration: ".toList ++ value
  | rangeEqualityNeedsInterval column =>
      "equality on date-range column ".toList ++ column ++ " needs an interval".toList
  | slotColumnNotRange column =>
      "slot column ".toList ++ column ++ " is not a date range".toList
  | duplicateSlot => "only one slot column is allowed".toList
  | noOutputColumns => "query has no output columns".toList
  | corruptRange cell =>
      "stored value ".toList ++ Text.quoted cell ++ " is not a date range".toList
  | unauthorized phone => "access denied for ".toList ++ phone

end Rejection

end TableTalk
