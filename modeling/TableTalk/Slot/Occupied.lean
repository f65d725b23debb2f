import TableTalk.Time.Stored
import TableTalk.Query.Constraint
import TableTalk.Rejection

/-!
# Occupied time

Occupied time is a list of spans, each of which may be without a start or
without an end.  It comes from stored cells and from what the sender put on the
slot column: a constraint of two sides occupies the span between them, `<`
occupies everything from its value on and `>` everything before its value.
Merging joins spans that overlap or touch.
-/

namespace TableTalk

/-- A span of occupied time; a missing end is unbounded. -/
structure Occupied where
  /-- First instant inside -/
  start : Option Instant
  /-- First instant after -/
  stop : Option Instant
deriving DecidableEq

namespace Occupied

def between (start stop : Instant) : Occupied :=
  ⟨some start, some stop⟩

/-- Read a stored cell. -/
def ofStored (cell : Text) : Except Rejection Occupied :=
  match Interval.ofStored? cell with
  | some i => .ok (between i.start i.stop)
  | none => .error (.corruptRange cell)

/-- Order of starts: a missing start comes before every instant. -/
def startsBefore (a b : Occupied) : Bool :=
  match a.start, b.start with
  | none, some _ => true
  | some x, some y => x < y
  | _, none => false

/-- The span starts no later than an end; a missing end is later than everything. -/
def startsBy (o : Occupied) (stop : Option Instant) : Bool :=
  match o.start, stop with
  | some x, some y => x ≤ y
  | _, _ => true

/-- The later of two ends; a missing end is the latest. -/
def laterStop : Option Instant → Option Instant → Option Instant
  | some a, some b => some (max a b)
  | _, _ => none

/-- Insert a span before the first one that starts after it. -/
def insertSorted (o : Occupied) : List Occupied → List Occupied
  | [] => [o]
  | x :: rest => if startsBefore o x then o :: x :: rest else x :: insertSorted o rest

/-- Read the value of a constraint. -/
def bound (value : Text) : Except Rejection Instant :=
  match Instant.ofStored? value with
  | some t => .ok t
  | none => .error (.corruptRange value)

/-- Occupied spans together with the bounds met so far. -/
structure Folding where
  /-- Spans, in order of their starts -/
  spans : List Occupied
  /-- Everything from here on is occupied -/
  busyFrom : Option Instant := none
  /-- Everything before is occupied -/
  busyUntil : Option Instant := none
deriving DecidableEq

/-- The span between the two sides of a constraint. -/
def ofSides (first second : Comparison) : Except Rejection Occupied :=
  let (start, stop) :=
    if first.comparator = .lessThan then (first.value, second.value)
    else (second.value, first.value)
  match bound start with
  | .error e => .error e
  | .ok start =>
      match bound stop with
      | .error e => .error e
      | .ok stop => .ok (between start stop)

/-- The smaller of a value and the one before, if any. -/
def least (before : Option Instant) (value : Instant) : Instant :=
  match before with
  | some t => min t value
  | none => value

/-- The larger of a value and the one before, if any. -/
def greatest (before : Option Instant) (value : Instant) : Instant :=
  match before with
  | some t => max t value
  | none => value

/-- Take one constraint into the fold.  Comparisons other than `<` and `>` bound nothing. -/
def Folding.take (f : Folding) (c : Constraint) : Except Rejection Folding :=
  match c.second with
  | some second =>
      match ofSides c.first second with
      | .error e => .error e
      | .ok o => .ok { f with spans := insertSorted o f.spans }
  | none =>
      match bound c.first.value with
      | .error e => .error e
      | .ok value =>
          match c.first.comparator with
          | .lessThan => .ok { f with busyFrom := some (least f.busyFrom value) }
          | .greaterThan => .ok { f with busyUntil := some (greatest f.busyUntil value) }
          | .greaterThanEquals | .equals | .notEquals => .ok f

/-- All occupied spans of a fold: the one without a start comes first. -/
def Folding.all (f : Folding) : List Occupied :=
  let spans := match f.busyUntil with
    | some t => ⟨none, some t⟩ :: f.spans
    | none => f.spans
  match f.busyFrom with
  | some t => insertSorted ⟨some t, none⟩ spans
  | none => spans

/-- Occupied spans, sorted by start, with the constraints on the slot column. -/
def applyConstraints (spans : List Occupied) (constraints : List Constraint) :
    Except Rejection (List Occupied) :=
  match constraints.foldlM Folding.take { spans } with
  | .error e => .error e
  | .ok f => .ok f.all

/-- Join a span with the following ones as long as they overlap or touch.  Nothing
follows a span without an end. -/
def mergeFrom (current : Occupied) : List Occupied → List Occupied
  | [] => [current]
  | next :: rest =>
      if current.stop.isNone then [current]
      else if next.startsBy current.stop then
        mergeFrom ⟨current.start, laterStop current.stop next.stop⟩ rest
      else current :: mergeFrom next rest

/-- Join overlapping and touching spans of a list sorted by start. -/
def merge : List Occupied → List Occupied
  | [] => []
  | first :: rest => mergeFrom first rest

end Occupied

end TableTalk
