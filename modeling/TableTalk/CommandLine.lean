import TableTalk.Settings.Load
import TableTalk.Store.Hosting
import TableTalk.Store.Snapshot
import TableTalk.Table.Description
import TableTalk.Workspace

/-!
# The command line

Five commands: make the database ready, define a table from a description,
add a shortcut, grant a credential, and handle one message.  A run loads its
settings, reads its arguments, opens the database and carries out the command,
in that order; the first thing that goes wrong ends it.
-/

namespace TableTalk.CommandLine

/-- What a run is asked to do. -/
inductive Action where
  | help
  /-- Make the database ready -/
  | init
  /-- Define a data table from the description in a file -/
  | define (file : Text)
  | addShortcut (table : Text) (shortcut : Shortcut)
  /-- Add a credential to an access table -/
  | grant (table phone password : Text)
  | handle (message : Message)
deriving DecidableEq, Repr

/-! ### Reading arguments -/

/-- Arguments of a command: those that stand alone, in order, and the sender. -/
structure Arguments where
  /-- Arguments that stand alone -/
  plain : List Text := []
  sender : Option Text := none
deriving DecidableEq, Repr

/-- What reading arguments gives. -/
inductive Reading where
  | bad
  | help
  | arguments (a : Arguments)
deriving DecidableEq, Repr

/-- The argument looks like an option. -/
def looksLikeOption : Text → Bool
  | '-' :: _ :: _ => true
  | _ => false

/-- Take an argument that stands alone, if there is room for one more. -/
def Arguments.takePlain (a : Arguments) (limit : Nat) (t : Text) : Option Arguments :=
  if a.plain.length < limit then some { a with plain := a.plain ++ [t] } else none

/-- Take the sender, which may be given once. -/
def Arguments.takeSender (a : Arguments) (t : Text) : Option Arguments :=
  if a.sender.isSome then none else some { a with sender := some t }

/-- Take all remaining arguments as standing alone. -/
def takeRest (limit : Nat) : Arguments → List Text → Reading
  | a, [] => .arguments a
  | a, t :: rest =>
      match a.takePlain limit t with
      | some a => takeRest limit a rest
      | none => .bad

/-- What an argument is. -/
inductive Token where
  /-- From here on all arguments stand alone -/
  | separator
  | help
  /-- The sender is the next argument -/
  | senderNext
  /-- The sender is in the argument itself -/
  | sender (t : Text)
  /-- An option there is not -/
  | unknown
  | plain (t : Text)
deriving DecidableEq, Repr

/-- Tell what an argument is. -/
def Token.of (t : Text) : Token :=
  if t = "--".toList then .separator
  else if t = "--help".toList then .help
  else if t = "--from".toList ∨ t = "-f".toList then .senderNext
  else
    match Text.after? "--from=".toList t with
    | some value => .sender value
    | none =>
        match t with
        | '-' :: 'f' :: '=' :: value => .sender value
        | '-' :: 'f' :: value => .sender value
        | '-' :: 'h' :: _ => .help
        | _ => if looksLikeOption t then .unknown else .plain t

/-- Read the arguments of a command that takes at most so many standing alone,
and the sender if it takes one. -/
def readArguments (limit : Nat) (takesSender : Bool) : Arguments → List Text → Reading
  | a, [] => .arguments a
  | a, t :: rest =>
      match Token.of t with
      | .separator => takeRest limit a rest
      | .help => .help
      | .unknown => .bad
      | .plain t =>
          match a.takePlain limit t with
          | some a => readArguments limit takesSender a rest
          | none => .bad
      | .sender value =>
          if takesSender then
            match a.takeSender value with
            | some a => readArguments limit takesSender a rest
            | none => .bad
          else .bad
      | .senderNext =>
          if takesSender then
            match rest with
            | [] => .bad
            | value :: rest =>
                if looksLikeOption value then .bad
                else
                  match a.takeSender value with
                  | some a => readArguments limit takesSender a rest
                  | none => .bad
          else .bad

def finish (r : Reading) (action : Arguments → Option Action) : Option Action :=
  match r with
  | .bad => none
  | .help => some .help
  | .arguments a => action a

def commandNames : List Text :=
  ["init".toList, "define".toList, "shortcut".toList, "grant".toList, "handle".toList,
   "help".toList]

/-- The action of arguments after the name of a command. -/
def actionOf (name : Text) (args : List Text) : Option Action :=
  if name = "init".toList then
    finish (readArguments 0 false {} args) fun _ => some .init
  else if name = "define".toList then
    finish (readArguments 1 false {} args) fun a =>
      match a.plain with
      | [c :: file] => some (.define (c :: file))
      | _ => none
  else if name = "shortcut".toList then
    finish (readArguments 4 false {} args) fun a =>
      match a.plain with
      | [table, name, input, output] => some (.addShortcut table ⟨name, input, output⟩)
      | _ => none
  else if name = "grant".toList then
    finish (readArguments 3 false {} args) fun a =>
      match a.plain with
      | [table, phone, password] => some (.grant table phone password)
      | _ => none
  else if name = "handle".toList then
    finish (readArguments 1 true {} args) fun a =>
      match a.plain, a.sender with
      | [body], some sender => some (.handle ⟨sender, body⟩)
      | _, _ => none
  else none

/-- Arguments that ask for help or for the version before any command. -/
def helpNames : List Text :=
  ["--help".toList, "-h".toList, "--version".toList, "-V".toList]

/-- The action of a command line; `none` if it is not one. -/
def action : List Text → Option Action
  | [] => none
  | name :: args =>
      if helpNames.contains name then some .help
      else if name = "help".toList then
        match args with
        | [] => some .help
        | [topic] => if commandNames.contains topic then some .help else none
        | _ => none
      else actionOf name args

/-! ### Running -/

/-- What a run leaves behind for its caller. -/
structure Report where
  /-- Exit code -/
  code : Nat
  output : Text := []
  /-- What went wrong, if a command failed -/
  error : Option Text := none
deriving DecidableEq, Repr

namespace Report

def done (output : Text) : Report := ⟨0, output, none⟩

def failed (error : Text) : Report := ⟨1, [], some error⟩

def badUsage : Report := ⟨2, [], none⟩

end Report

/-- The line printed for an outcome. -/
def outcomeLine (phone : Text) : Outcome → Text
  | .inserted table values =>
      "inserted into ".toList ++ table ++ ": ".toList ++ Json.writePairs values ++ ['\n']
  | .responded body => "to ".toList ++ phone ++ ": ".toList ++ body ++ ['\n']
  | .notHandled cause =>
      "not handled (".toList ++ cause.reason.name ++ "): ".toList ++ cause.message ++ ['\n']

/-- The report of a writing, and the database after it. -/
def written (db : Database) (result : Except Failure Database) : Report × Database :=
  match result with
  | .ok db => (.done [], db)
  | .error e => (.failed e.message, db)

/-- Carry out an action on an open database. -/
def perform (limits : Limits) (now : Instant) (w : Workspace) (db : Database) :
    Action → Report × Database
  | .help => (.done [], db)
  | .init => (.done [], db)
  | .define file =>
      match w.read? file with
      | none => (.failed ("Failed to read ".toList ++ file), db)
      | some content =>
          match Description.read content with
          | none => (.failed ("Failed to parse ".toList ++ file), db)
          | some table => written db (db.define table)
  | .addShortcut table shortcut => written db (db.addShortcut now table shortcut)
  | .grant table phone password => written db (db.grant now table phone password)
  | .handle message =>
      let run := Database.handle limits now now message db
      match run.result with
      | .ok outcome => (.done (outcomeLine message.sender outcome), run.state)
      | .error e => (.failed e.message, run.state)

/-- The path of a database that is kept nowhere. -/
def inMemory : Text := ":memory:".toList

/-- Open the database at a path; a missing file is an empty database. -/
def openDatabase (w : Workspace) (path : Text) : Option Database :=
  if path = inMemory then some .empty
  else if w.isBlocked path || w.isFolder path then none
  else
    match w.read? path with
    | none => some .empty
    | some content => Snapshot.read content

/-- Keep the database at a path. -/
def keep (w : Workspace) (path : Text) (db : Database) : Workspace :=
  if path = inMemory then w else w.write path (Snapshot.write db)

/-- Files with settings, later ones over earlier ones. -/
def settingsFiles : List Text :=
  ["config/default.json".toList, "config/local.json".toList]

def settings (w : Workspace) : Except SettingsIssue Settings :=
  Settings.load (settingsFiles.map w.read?) w.environment

/-- Carry out an action on the database the settings name. -/
def onDatabase (s : Settings) (now : Instant) (w : Workspace) (a : Action) :
    Report × Workspace :=
  match openDatabase w s.database.path with
  | none => (.failed ("Failed to open database ".toList ++ s.database.path), w)
  | some db =>
      let (report, db) := perform s.interpreter now w db a
      (report, keep w s.database.path db)

/-- Run a command line in a workspace at an instant. -/
def run (now : Instant) (w : Workspace) (args : List Text) : Report × Workspace :=
  match settings w with
  | .error issue => (.failed issue.message, w)
  | .ok s =>
      match action args with
      | none => (.badUsage, w)
      | some .help => (.done [], w)
      | some a => onDatabase s now w a

/-- The paths of files that a command line may read: settings, the database with
the folders it lies in, and a description. -/
def readPaths (databasePath : Text) (args : List Text) : List Text :=
  let steps := databasePath.splitOn '/'
  let folders := (List.range steps.length).map fun n => Text.join ['/'] (steps.take n)
  let file := match action args with
    | some (.define file) => [file]
    | _ => []
  settingsFiles ++ (folders.filter fun f => !f.isEmpty) ++ [databasePath] ++ file

end TableTalk.CommandLine
