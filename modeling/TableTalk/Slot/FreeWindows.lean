import TableTalk.Slot.Occupied
import TableTalk.Text.Cut

/-!
# Free windows

The free windows are the gaps between merged occupied spans, with the time
before the first and after the last.  A gap is told only if it is at least as
long as asked for; the two open ends are told whenever they exist.

Lengths are counted in nanoseconds, as instants are; `render` and `reply` take the
least length in whole seconds, as messages give it.
-/

namespace TableTalk.FreeWindows

/-- The text for time on which nothing is occupied. -/
def anytime : Text := "anytime".toList

/-- The gap between two neighbouring spans, if it is long enough. -/
def gap (minGap : Int) (a b : Occupied) : List Text :=
  match a.stop, b.start with
  | some start, some stop =>
      if minGap ≤ stop.nanosSince start then
        [start.stored ++ '-' :: stop.stored]
      else []
  | _, _ => []

/-- The gaps between neighbours of a list. -/
def gaps (minGap : Int) : List Occupied → List Text
  | a :: b :: rest => gap minGap a b ++ gaps minGap (b :: rest)
  | _ => []

/-- The window before the first span. -/
def before (first : Occupied) : List Text :=
  match first.start with
  | some t => ["before ".toList ++ t.stored]
  | none => []

/-- The window after the last span. -/
def after (last : Occupied) : List Text :=
  match last.stop with
  | some t => ["after ".toList ++ t.stored]
  | none => []

/-- The free windows of merged spans, without gaps below a length. -/
def windows (minGap : Int) (merged : List Occupied) : Text :=
  match merged with
  | [] => anytime
  | first :: rest =>
      let last := rest.getLastD first
      Text.join [';'] (before first ++ gaps minGap merged ++ after last)

/-- The free windows of stored cells under constraints on the slot column, without
gaps below a length. -/
def ofCells (minGap : Int) (cells : List Text) (constraints : List Constraint) :
    Except Rejection Text :=
  match cells.mapM Occupied.ofStored with
  | .error e => .error e
  | .ok spans =>
      match Occupied.applyConstraints spans constraints with
      | .error e => .error e
      | .ok occupied => .ok (windows minGap (Occupied.merge occupied))

/-- The free windows of merged spans. -/
def render (minSeconds : Int) (merged : List Occupied) : Text :=
  windows (minSeconds * nanosPerSecond) merged

/-- The free windows of stored cells under constraints on the slot column. -/
def reply (minSeconds : Int) (cells : List Text) (constraints : List Constraint) :
    Except Rejection Text :=
  ofCells (minSeconds * nanosPerSecond) cells constraints

end TableTalk.FreeWindows
