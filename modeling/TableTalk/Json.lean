import TableTalk.Text.Blank

/-!
# JSON texts

Table descriptions, configuration files and lists of options are JSON.  The
reader is strict: no trailing commas, no comments, no leading zeros, no control
characters inside strings.  Members of an object keep their order and repeats,
and numbers keep their literal, so that each use decides what it accepts.

A string may escape half of a surrogate pair, which names no character.  Such a
string is read as `none`: it may stand where nobody looks at it.
-/

namespace TableTalk

/-- A JSON value as written. -/
inductive Json where
  /-- The word `null` -/
  | null
  /-- The word `true` or `false` -/
  | bool (b : Bool)
  /-- A number, as its literal -/
  | number (literal : Text)
  /-- A string, unless it holds half of a surrogate pair -/
  | string (content : Option Text)
  | array (items : List Json)
  /-- Members in order, repeats included -/
  | object (members : List (Option Text × Json))

namespace Json

/-- White space between tokens. -/
def isSpace (c : Char) : Bool :=
  c == ' ' || c == '\t' || c == '\n' || c == '\r'

def skipSpace (t : Text) : Text :=
  t.dropWhile isSpace

def hexDigit? (c : Char) : Option Nat :=
  if c.isDigit then some (c.toNat - '0'.toNat)
  else if 'a' ≤ c ∧ c ≤ 'f' then some (c.toNat - 'a'.toNat + 10)
  else if 'A' ≤ c ∧ c ≤ 'F' then some (c.toNat - 'A'.toNat + 10)
  else none

/-- The character a short escape stands for. -/
def shortEscape? : Char → Option Char
  | '"' => some '"'
  | '\\' => some '\\'
  | '/' => some '/'
  | 'b' => some '\x08'
  | 'f' => some '\x0c'
  | 'n' => some '\n'
  | 'r' => some '\r'
  | 't' => some '\t'
  | _ => none

/-- The units of a string up to its closing quote, and what follows it.  Every
unit is a code point or half of a surrogate pair. -/
def takeUnits : Text → Option (List Nat × Text)
  | [] => none
  | '"' :: rest => some ([], rest)
  | '\\' :: 'u' :: a :: b :: c :: d :: rest => do
      let unit := ((← hexDigit? a) * 16 + (← hexDigit? b)) * 256 +
        ((← hexDigit? c) * 16 + (← hexDigit? d))
      let (units, rest) ← takeUnits rest
      return (unit :: units, rest)
  | '\\' :: e :: rest => do
      let c ← shortEscape? e
      let (units, rest) ← takeUnits rest
      return (c.toNat :: units, rest)
  | c :: rest =>
      if c == '\\' || c.toNat < 0x20 then none
      else (takeUnits rest).map fun r => (c.toNat :: r.1, r.2)

/-- The text units spell: a high half and a low half make one character, and a
half left alone makes none. -/
def ofUnits? : List Nat → Option Text
  | [] => some []
  | [u] => if 0xD800 ≤ u ∧ u ≤ 0xDFFF then none else some [Char.ofNat u]
  | u :: v :: rest =>
      if 0xD800 ≤ u ∧ u ≤ 0xDBFF then
        if 0xDC00 ≤ v ∧ v ≤ 0xDFFF then
          (ofUnits? rest).map (Char.ofNat (0x10000 + (u - 0xD800) * 0x400 + (v - 0xDC00)) :: ·)
        else none
      else if 0xDC00 ≤ u ∧ u ≤ 0xDFFF then none
      else (ofUnits? (v :: rest)).map (Char.ofNat u :: ·)

/-- Take the rest of a string after its opening quote. -/
def takeString? (t : Text) : Option (Option Text × Text) :=
  (takeUnits t).map fun r => (ofUnits? r.1, r.2)

/-- Take one or more digits. -/
def takeDigits? (t : Text) : Option (Text × Text) :=
  let digits := t.takeWhile Char.isDigit
  if digits.isEmpty then none else some (digits, t.drop digits.length)

/-- Take digits without a leading zero, or the digit zero alone. -/
def takeWhole? : Text → Option (Text × Text)
  | '0' :: rest =>
      match rest with
      | c :: _ => if c.isDigit then none else some (['0'], rest)
      | [] => some (['0'], rest)
  | t => takeDigits? t

/-- Take a point and digits, if a point follows. -/
def takeFraction? : Text → Option (Text × Text)
  | '.' :: rest => (takeDigits? rest).map fun r => ('.' :: r.1, r.2)
  | t => some ([], t)

/-- Take a sign, if one follows. -/
def takeSign : Text → Text × Text
  | '+' :: rest => (['+'], rest)
  | '-' :: rest => (['-'], rest)
  | t => ([], t)

/-- Take a power of ten, if one follows. -/
def takeExponent? : Text → Option (Text × Text)
  | [] => some ([], [])
  | c :: rest =>
      if c == 'e' || c == 'E' then
        let (sign, rest) := takeSign rest
        (takeDigits? rest).map fun r => (c :: sign ++ r.1, r.2)
      else some ([], c :: rest)

def takeNumber? (t : Text) : Option (Text × Text) := do
  let (sign, t) := match t with
    | '-' :: rest => (['-'], rest)
    | _ => ([], t)
  let (whole, t) ← takeWhole? t
  let (fraction, t) ← takeFraction? t
  let (power, t) ← takeExponent? t
  return (sign ++ whole ++ fraction ++ power, t)

mutual

/-- Take a value.  The depth bounds the nesting; the length of the text is enough. -/
def takeValue? : Nat → Text → Option (Json × Text)
  | 0, _ => none
  | depth + 1, t =>
      match skipSpace t with
      | 'n' :: 'u' :: 'l' :: 'l' :: rest => some (null, rest)
      | 't' :: 'r' :: 'u' :: 'e' :: rest => some (bool true, rest)
      | 'f' :: 'a' :: 'l' :: 's' :: 'e' :: rest => some (bool false, rest)
      | '"' :: rest => (takeString? rest).map fun r => (string r.1, r.2)
      | '[' :: rest =>
          match skipSpace rest with
          | ']' :: rest => some (array [], rest)
          | rest => (takeItems? depth rest).map fun r => (array r.1, r.2)
      | '\x7b' :: rest =>
          match skipSpace rest with
          | '\x7d' :: rest => some (object [], rest)
          | rest => (takeMembers? depth rest).map fun r => (object r.1, r.2)
      | rest => (takeNumber? rest).map fun r => (number r.1, r.2)

/-- Take the items of a list up to its closing bracket. -/
def takeItems? : Nat → Text → Option (List Json × Text)
  | 0, _ => none
  | depth + 1, t => do
      let (item, t) ← takeValue? depth t
      match skipSpace t with
      | ']' :: rest => return ([item], rest)
      | ',' :: rest =>
          let (items, rest) ← takeItems? depth rest
          return (item :: items, rest)
      | _ => none

/-- Take the members of an object up to its closing brace. -/
def takeMembers? : Nat → Text → Option (List (Option Text × Json) × Text)
  | 0, _ => none
  | depth + 1, t => do
      let rest ← match skipSpace t with
        | '"' :: rest => some rest
        | _ => none
      let (key, rest) ← takeString? rest
      let rest ← match skipSpace rest with
        | ':' :: rest => some rest
        | _ => none
      let (value, rest) ← takeValue? depth rest
      match skipSpace rest with
      | '\x7d' :: rest => return ([(key, value)], rest)
      | ',' :: rest =>
          let (members, rest) ← takeMembers? depth rest
          return ((key, value) :: members, rest)
      | _ => none

end

/-- Read a text that is one value, white space apart. -/
def read (t : Text) : Option Json :=
  match takeValue? (2 * t.length + 2) t with
  | some (value, rest) => if (skipSpace rest).isEmpty then some value else none
  | none => none

mutual

/-- Nesting depth: 0 for a scalar, one more than the deepest content otherwise. -/
def depth : Json → Nat
  | array items => 1 + depthOfItems items
  | object members => 1 + depthOfMembers members
  | null | bool _ | number _ | string _ => 0

def depthOfItems : List Json → Nat
  | [] => 0
  | item :: rest => max (depth item) (depthOfItems rest)

def depthOfMembers : List (Option Text × Json) → Nat
  | [] => 0
  | (_, value) :: rest => max (depth value) (depthOfMembers rest)

end

def text? : Json → Option Text
  | string content => content
  | _ => none

def texts? : Json → Option (List Text)
  | array items => items.mapM text?
  | _ => none

/-- One character inside a written string. -/
def writeChar (c : Char) : Text :=
  if c = '"' then ['\\', '"']
  else if c = '\\' then ['\\', '\\']
  else if c = '\x08' then ['\\', 'b']
  else if c = '\x0c' then ['\\', 'f']
  else if c = '\n' then ['\\', 'n']
  else if c = '\r' then ['\\', 'r']
  else if c = '\t' then ['\\', 't']
  else if c.toNat < 0x20 then
    ['\\', 'u', '0', '0', Nat.digitChar (c.toNat / 16), Nat.digitChar (c.toNat % 16)]
  else [c]

/-- A text as a JSON string. -/
def writeText (t : Text) : Text :=
  '"' :: t.flatMap writeChar ++ ['"']

/-- Texts as a JSON list of strings, without white space. -/
def writeTexts (texts : List Text) : Text :=
  '[' :: [','].intercalate (texts.map writeText) ++ [']']

/-- Pairs as a JSON object with string values, without white space. -/
def writePairs (pairs : List (Text × Text)) : Text :=
  '\x7b' :: [','].intercalate (pairs.map fun p => writeText p.1 ++ ':' :: writeText p.2) ++ ['\x7d']

end Json

end TableTalk
