import TableTalk.Text.Blank
import TableTalk.Text.Invisible

/-!
# Quoting a text inside a message

Replies that cite a value put it between double quotes.  A double quote and a
backslash are written with a backslash before them, four control characters
have a letter of their own, and a character that would not be seen is written
by its hexadecimal code point between braces, after a backslash and a `u`.
-/

namespace TableTalk.Text

/-- The code point of a character in hexadecimal, lower case, no leading zeros. -/
def hexPoint (c : Char) : Text :=
  Nat.toDigits 16 c.toNat

/-- One character of a quoted text. -/
def quoteChar (c : Char) : Text :=
  if c = '"' then ['\\', '"']
  else if c = '\\' then ['\\', '\\']
  else if c = '\t' then ['\\', 't']
  else if c = '\n' then ['\\', 'n']
  else if c = '\r' then ['\\', 'r']
  else if c = '\x00' then ['\\', '0']
  else if isInvisible c then ['\\', 'u', '\x7b'] ++ hexPoint c ++ ['\x7d']
  else [c]

/-- A text between double quotes, with everything unprintable escaped. -/
def quoted (t : Text) : Text :=
  '"' :: t.flatMap quoteChar ++ ['"']

end TableTalk.Text
