import TableTalk.Text.Cut
import TableTalk.Rejection

/-!
# The shape of a command

A command is an at sign, the name of a table, a space and arguments.  The name
ends at the first space character; everything from that space on, the space
included, is the arguments.  The second word decides the mode: a plus sign opens
an add, anything else a query.  A last word that opens with a number sign and
goes on is the password, and is not part of the command.
-/

namespace TableTalk.Command

/-- The text can be a command: it opens with an at sign and has a space. -/
def isCommand (t : Text) : Bool :=
  match t with
  | '@' :: rest => rest.contains ' '
  | _ => false

/-- The text up to the first space, without the at sign it may open with. -/
def targetName (t : Text) : Text :=
  match t.takeWhile (· != ' ') with
  | '@' :: name => name
  | name => name

/-- What a command asks for. -/
inductive Mode where
  | add
  /-- Read rows or free windows -/
  | query
deriving DecidableEq, Repr

/-- The mode of a command, from its second word. -/
def mode (t : Text) : Except Rejection Mode :=
  match (Text.words t).drop 1 with
  | [] => .error .missingArguments
  | ('+' :: _) :: _ => .ok .add
  | _ :: _ => .ok .query

/-- The text from the first space on. -/
def arguments (t : Text) : Text :=
  t.dropWhile (· != ' ')

/-- A command without its password, and the password; the empty password if
there is none.  A number sign alone is not a password. -/
def splitPassword (t : Text) : Text × Text :=
  match Text.cutAtLast (· == ' ') t with
  | some (command, '#' :: c :: password) => (Text.trimEnd command, c :: password)
  | _ => (t, [])

end TableTalk.Command
