import TableTalk.Text.Cut
import TableTalk.Value

/-!
# Add commands

The arguments of an add are pairs of a label and a value.  A pair starts at each
plus sign that opens the text or follows a space, and its value runs to the next
such sign; what stands before the first one is passed over.  Every pair must
name a column and hold a value of it.  Columns that messages may not write are
checked all the same and then left out.
-/

namespace TableTalk

namespace RowValues

/-- Set the value of a name, keeping the names in ascending order. -/
def set (name value : Text) : RowValues → RowValues
  | [] => [(name, value)]
  | (n, v) :: rest =>
      if name = n then (name, value) :: rest
      else if name < n then (name, value) :: (n, v) :: rest
      else (n, v) :: set name value rest

def get? (row : RowValues) (name : Text) : Option Text :=
  row.lookup name

end RowValues

namespace Add

/-- Cut a text at each space that is followed by a plus sign, both left out. -/
def cutAtSigns : Text → Text × List Text
  | ' ' :: '+' :: t =>
      let (first, rest) := cutAtSigns t
      ([], first :: rest)
  | c :: t =>
      let (first, rest) := cutAtSigns t
      (c :: first, rest)
  | [] => ([], [])

/-- The pieces that a plus sign opens, without the sign. -/
def pieces (args : Text) : List Text :=
  match cutAtSigns args with
  | ('+' :: first, rest) => first :: rest
  | (_, rest) => rest

/-- The label and the value of a piece, at its first blank. -/
def pair (piece : Text) : Except Rejection (Text × Text) :=
  match Text.cutAt Text.isBlank piece with
  | some (label, value) => .ok (label, Text.trim value)
  | none => .error (.missingValue (Text.trim piece))

def pairs (args : Text) : Except Rejection (List (Text × Text)) :=
  (pieces args).mapM pair

def put (now : Instant) (table : Table) (row : RowValues) (p : Text × Text) :
    Except Rejection RowValues :=
  match table.columnByLabel p.1 with
  | none => .error (.unknownColumn p.1)
  | some column =>
      match Value.normalize now column p.2 with
      | .error e => .error e
      | .ok value =>
          if column.writable then .ok (RowValues.set column.storageName value row) else .ok row

/-- The row an add inserts. -/
def row (now : Instant) (table : Table) (args : Text) : Except Rejection RowValues :=
  match pairs args with
  | .error e => .error e
  | .ok ps => ps.foldlM (put now table) []

end Add

end TableTalk
