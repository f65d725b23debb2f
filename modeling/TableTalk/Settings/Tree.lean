import TableTalk.Json
import TableTalk.Number.Decimal

/-!
# Layered settings

Settings come in layers, each a tree of named groups.  A later layer wins value
by value: groups are merged by name and everything else is replaced.  Names are
compared in lower case.  A name with points in it, at the top of a layer, is a
path into the groups.
-/

namespace TableTalk

/-- A tree of settings. -/
inductive SettingTree where
  /-- No value -/
  | nothing
  | flag (b : Bool)
  /-- A whole number of 64 bits -/
  | whole (n : Int)
  /-- Any other number -/
  | real (d : Decimal)
  | text (t : Text)
  | list (items : List SettingTree)
  /-- A group of named settings -/
  | group (members : List (Text × SettingTree))

namespace SettingTree

/-- The members of a group; of anything else, none. -/
def members : SettingTree → List (Text × SettingTree)
  | group ms => ms
  | _ => []

def member? (tree : SettingTree) (name : Text) : Option SettingTree :=
  tree.members.lookup name

/-- Set a member in place of the one of its name, if any. -/
def setIn (name : Text) (value : SettingTree) :
    List (Text × SettingTree) → List (Text × SettingTree)
  | [] => [(name, value)]
  | (n, v) :: rest => if n = name then (n, value) :: rest else (n, v) :: setIn name value rest

/-- Set a member; what is not a group becomes one. -/
def put (tree : SettingTree) (name : Text) (value : SettingTree) : SettingTree :=
  group (setIn name value tree.members)

mutual

/-- A setting with a later one over it. -/
def laidOver (below : Option SettingTree) : SettingTree → SettingTree
  | group ms => overMembers (below.getD (group [])) ms
  | value => value

/-- A group with later members over it. -/
def overMembers (below : SettingTree) : List (Text × SettingTree) → SettingTree
  | [] => below
  | (name, value) :: rest => overMembers (below.put name (laidOver (below.member? name) value)) rest

end

/-- Set the setting at a path, over the one that is there. -/
def assign (tree : SettingTree) (value : SettingTree) : List Text → SettingTree
  | [] => tree
  | [name] => tree.put name (laidOver (tree.member? name) value)
  | name :: path => tree.put name (assign ((tree.member? name).getD (group [])) value path)

/-- Characters of one step of a path. -/
def isPathChar (c : Char) : Bool :=
  c.isAlphanum || c == '_' || c == '-' || c == ' '

/-- The path a name writes, with points between its steps. -/
def path (name : Text) : List Text :=
  let steps := name.splitOn '.'
  if steps.all fun s => !s.isEmpty && s.all isPathChar then steps else [name]

/-- A layer over a tree. -/
def layer (tree : SettingTree) (ms : List (Text × SettingTree)) : SettingTree :=
  ms.foldl (fun t m => t.assign m.2 (path m.1)) tree

/-- The setting a number literal writes, unless it is too large for a number. -/
def ofNumber? (literal : Text) : Option SettingTree :=
  match Decimal.read literal with
  | none => none
  | some d =>
      let isWhole := literal.all fun c => c.isDigit || c == '-'
      let n : Int := if d.negative then -(d.coefficient : Int) else d.coefficient
      if isWhole && -9223372036854775808 ≤ n && n ≤ 9223372036854775807 &&
          !(d.negative && n == 0) then some (whole n)
      else if d.isFinite then some (real d) else none

/-- The deepest nesting of a settings file. -/
def maxDepth : Nat := 127

mutual

/-- The settings a JSON value writes. -/
def ofJson? : Json → Option SettingTree
  | .null => some nothing
  | .bool b => some (flag b)
  | .number literal => ofNumber? literal
  | .string content => content.map text
  | .array items => (ofItems? items).map list
  | .object ms => (ofMembers? ms).map group

def ofItems? : List Json → Option (List SettingTree)
  | [] => some []
  | item :: rest =>
      match ofJson? item, ofItems? rest with
      | some item, some rest => some (item :: rest)
      | _, _ => none

/-- The settings of an object; of two members of one name the last counts. -/
def ofMembers? : List (Option Text × Json) → Option (List (Text × SettingTree))
  | [] => some []
  | (key, value) :: rest =>
      match key, ofJson? value, ofMembers? rest with
      | some key, some value, some rest =>
          let name := Text.lower key
          some (if (rest.lookup name).isSome then rest else (name, value) :: rest)
      | _, _, _ => none

end

/-- The members of a settings file, which must hold an object. -/
def ofFile? (content : Text) : Option (List (Text × SettingTree)) :=
  match Json.read content with
  | none => none
  | some json =>
      if json.depth ≤ maxDepth then
        match ofJson? json with
        | some (group ms) => some ms
        | _ => none
      else none

end SettingTree

end TableTalk
