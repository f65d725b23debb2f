import TableTalk.Text.Cut

/-!
# Segments of a query

The arguments of a query are cut at every space that is followed by a marker
character.  A segment is the marker, a label and, after a space, a value.  What
stands before the first marker is passed over.
-/

namespace TableTalk

/-- Comparisons a filter can ask for. -/
inductive FilterOp where
  | equals
  | lessThan
  | greaterThan
  | notEquals
deriving DecidableEq, Repr

/-- What a segment does. -/
inductive Marker where
  | filter (op : FilterOp)
  /-- Ask for free windows of a span column -/
  | slot
  | order
  /-- Print a column -/
  | project
deriving DecidableEq, Repr

namespace Marker

/-- The character that opens a segment. -/
def char : Marker → Char
  | filter .equals => '='
  | filter .lessThan => '<'
  | filter .greaterThan => '>'
  | filter .notEquals => '!'
  | slot => '/'
  | order => '~'
  | project => '?'

/-- The marker a character stands for. -/
def ofChar? : Char → Option Marker
  | '=' => some (filter .equals)
  | '<' => some (filter .lessThan)
  | '>' => some (filter .greaterThan)
  | '!' => some (filter .notEquals)
  | '/' => some slot
  | '~' => some order
  | '?' => some project
  | _ => none

@[simp] theorem ofChar?_char (m : Marker) : ofChar? m.char = some m := by
  rcases m with op | _ | _ | _
  · cases op <;> rfl
  all_goals rfl

end Marker

/-- One segment of a query. -/
structure Segment where
  marker : Marker
  label : Text
  value : Option Text
deriving DecidableEq, Repr

namespace Segment

/-- Cut a text at each space that is followed by a marker: the text before the
first marker, and each marker with the text up to the next. -/
def cutAtMarkers : Text → Text × List (Marker × Text)
  | [] => ([], [])
  | [c] => ([c], [])
  | c :: d :: t =>
      match (if c = ' ' then Marker.ofChar? d else none) with
      | some marker =>
          let (body, rest) := cutAtMarkers t
          ([], (marker, body) :: rest)
      | none =>
          let (before, rest) := cutAtMarkers (d :: t)
          (c :: before, rest)

/-- The segment of a marker and the text after it: the label ends at the first space. -/
def ofBody (marker : Marker) (body : Text) : Segment :=
  match Text.cutAt (· == ' ') body with
  | some (label, value) => ⟨marker, Text.trim label, some (Text.trim value)⟩
  | none => ⟨marker, Text.trim body, none⟩

/-- The segments of query arguments, in order. -/
def split (args : Text) : List Segment :=
  (cutAtMarkers args).2.map fun s => ofBody s.1 s.2

end Segment

end TableTalk
