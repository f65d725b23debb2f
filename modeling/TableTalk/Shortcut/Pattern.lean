import TableTalk.Text.Cut
import TableTalk.Table.Column

/-!
# Patterns with holes

A pattern alternates literal text and keys between percent signs.  Matching
binds each key to the text between its two literals, the right one being found
at its first occurrence; a key at the end takes all that is left, and a key
directly before another key takes nothing.  Filling puts texts in place of the
keys in one pass.
-/

namespace TableTalk

/-- A literal, then holes, each with its key and the literal after it. -/
structure Pattern where
  lead : Text
  /-- Keys, each with the literal that follows -/
  holes : List (Text × Text)
deriving DecidableEq, Repr

namespace Pattern

/-- Pair keys with the literals after them; a last key may have none. -/
def pairUp : List Text → List (Text × Text)
  | [] => []
  | [key] => [(key, [])]
  | key :: literal :: rest => (key, literal) :: pairUp rest

/-- The pattern a text writes: pieces between percent signs are a literal and a
key in turn. -/
def ofText (t : Text) : Pattern :=
  match t.splitOn '%' with
  | [] => ⟨[], []⟩
  | lead :: rest => ⟨lead, pairUp rest⟩

/-- Bind the keys of holes along a text. -/
def bindHoles : List (Text × Text) → Text → Option (List (Text × Text))
  | [], rest => if rest.isEmpty then some [] else none
  | [(key, [])], rest => some [(key, rest)]
  | (key, []) :: holes, rest => (bindHoles holes rest).map ((key, []) :: ·)
  | (key, c :: literal) :: holes, rest =>
      match Text.cutAtPiece (c :: literal) rest with
      | some (value, rest) => (bindHoles holes rest).map ((key, value) :: ·)
      | none => none

/-- The bindings of a pattern along a text, in the order of the holes. -/
def bind (p : Pattern) (t : Text) : Option (List (Text × Text)) :=
  (Text.after? p.lead t).bind (bindHoles p.holes)

/-- The value bound to a key; of several the last one counts. -/
def valueOf (bindings : List (Text × Text)) (key : Text) : Option Text :=
  bindings.reverse.lookup key

/-- Put values in place of holes. -/
def fillHoles (value : Text → Option Text) : List (Text × Text) → Option Text
  | [] => some []
  | (key, literal) :: holes => do
      let v ← value key
      let rest ← fillHoles value holes
      return v ++ literal ++ rest

/-- Put values in place of the keys of a pattern; every key must have one. -/
def fill (value : Text → Option Text) (p : Pattern) : Option Text :=
  (fillHoles value p.holes).map (p.lead ++ ·)

end Pattern

end TableTalk
