import TableTalk.Add
import TableTalk.Message.Guard
import TableTalk.Message.Reply
import TableTalk.Shortcut.Expansion

/-!
# Handling a message

A message goes through the stages in one direction: command check, shortcut
expansion, table, mode, password, and then either one insert or one select with
its reply.  Any stage may reject the message, which ends the handling; a failure
of a collaborator ends it as well, and is not an outcome.
-/

namespace TableTalk

/-- Limits on handling a message. -/
structure Limits where
  replyRows : Nat := 25
  /-- Shortcuts expanded per message -/
  shortcutDepth : Nat := 16
deriving DecidableEq, Repr

/-- What became of a message. -/
inductive Outcome where
  /-- A row was inserted into the table with this display name -/
  | inserted (table : Text) (values : RowValues)
  | responded (body : Text)
  | notHandled (cause : Rejection)
deriving DecidableEq, Repr

namespace Handling

/-- Insert the row of an add. -/
def add (now : Instant) (message : Message) (table : Table) (args : Text) :
    Program (Except Rejection Outcome) :=
  match Add.row now table args with
  | .error e => .done (.error e)
  | .ok values =>
      .ask (.insert table values message.sender) fun _ =>
        .done (.ok (.inserted table.displayName values))

/-- Send a reply, unless there is a cause not to. -/
def deliver (message : Message) (reply : Except Rejection Text) :
    Program (Except Rejection Outcome) :=
  match reply with
  | .error e => .done (.error e)
  | .ok body => .ask (.send message.sender body) fun _ => .done (.ok (.responded body))

def query (limits : Limits) (now : Instant) (message : Message) (table : Table) (args : Text) :
    Program (Except Rejection Outcome) :=
  match Plan.compile now table args with
  | .error e => .done (.error e)
  | .ok plan => (Reply.toPlan limits.replyRows table plan).bind (deliver message)

/-- Carry out the arguments of an admitted command. -/
def work (limits : Limits) (now : Instant) (message : Message) (table : Table) (args : Text) :
    Command.Mode → Program (Except Rejection Outcome)
  | .add => add now message table args
  | .query => query limits now message table args

/-- Carry out a command on its table. -/
def onTable (limits : Limits) (now : Instant) (message : Message) (command : Text)
    (table : Table) : Program (Except Rejection Outcome) :=
  match Command.mode command with
  | .error e => .done (.error e)
  | .ok mode =>
      let (body, password) := Command.splitPassword command
      Guard.check table message.sender password
        (work limits now message table (Command.arguments body) mode)

/-- Carry out an expanded command. -/
def expanded (limits : Limits) (now : Instant) (message : Message) (command : Text) :
    Program (Except Rejection Outcome) :=
  .ask (.findTable (Command.targetName command)) fun (found : Option Table) =>
    match found with
    | none => .done (.error (.unknownTable (Command.targetName command)))
    | some table => onTable limits now message command table

/-- Carry out a message. -/
def stages (limits : Limits) (now : Instant) (message : Message) :
    Program (Except Rejection Outcome) :=
  if Command.isCommand message.body then
    .ask .shortcuts fun (shortcuts : List Shortcut) =>
      expanded limits now message (Shortcut.expand shortcuts limits.shortcutDepth message.body)
  else .done (.error .notACommand)

/-- The outcome of the stages: a rejection is an outcome of its own. -/
def outcome : Except Rejection Outcome → Outcome
  | .ok o => o
  | .error cause => .notHandled cause

/-- Handle a message received at an instant. -/
def handle (limits : Limits) (now : Instant) (message : Message) : Program Outcome :=
  (stages limits now message).bind fun result => .done (outcome result)

end Handling

end TableTalk
