/-!
# Blank characters and trimming

A message is a list of characters, and `Text` is that list.  Comparing two
texts character by character agrees with comparing their UTF-8 encodings byte
by byte, so the order used for stored cells is the lexicographic order of
lists.

A character is blank when it has the Unicode property White_Space; there are 25
of them.  Trimming and word splitting go by that property, while the command
syntax itself is cut at the single character `' '` only.
-/

namespace TableTalk

/-- A text, as the list of its characters. -/
abbrev Text := List Char

namespace Text

/-- The 25 characters with the Unicode property White_Space. -/
def isBlank (c : Char) : Bool :=
  let n := c.toNat
  (9 ≤ n && n ≤ 13) || n == 0x20 || n == 0x85 || n == 0xA0 || n == 0x1680 ||
    (0x2000 ≤ n && n ≤ 0x200A) || n == 0x2028 || n == 0x2029 || n == 0x202F ||
    n == 0x205F || n == 0x3000

/-- Drop the blanks a text opens with. -/
def skipBlanks (t : Text) : Text :=
  t.dropWhile isBlank

/-- Drop the blanks a text ends with. -/
def trimEnd (t : Text) : Text :=
  (t.reverse.dropWhile isBlank).reverse

/-- Drop the blanks on both sides of a text. -/
def trim (t : Text) : Text :=
  trimEnd (skipBlanks t)

/-- The maximal blank-free pieces of a text, in order. -/
def words (t : Text) : List Text :=
  (t.splitOnP isBlank).filter fun w => !w.isEmpty

/-- Write the letters `A` to `Z` in lower case and leave every other character. -/
def lower (t : Text) : Text :=
  t.map Char.toLower

/-- Two texts that differ at most in the case of the letters `A` to `Z`. -/
def sameLetters (a b : Text) : Bool :=
  lower a == lower b

@[simp] theorem skipBlanks_nil : skipBlanks [] = [] := rfl

@[simp] theorem trim_nil : trim [] = [] := rfl

/-- Skipping blanks a second time changes nothing. -/
theorem skipBlanks_skipBlanks (t : Text) : skipBlanks (skipBlanks t) = skipBlanks t := by
  induction t with
  | nil => rfl
  | cons c r ih =>
      by_cases h : isBlank c = true
      · simpa [skipBlanks, List.dropWhile_cons, h] using ih
      · simp [skipBlanks, h]

end Text

end TableTalk
