import TableTalk.Message.Handling
import TableTalk.Number.Shortest
import TableTalk.Settings.Tree

/-!
# Settings of the program

Where the database is, how to log, and the limits on handling a message.
Settings are read from defaults, files and environment variables, later ones
over earlier ones, and then checked.  Values convert where that loses nothing of
their meaning: a text of digits is a number, a number or a truth value is a
text.
-/

namespace TableTalk

/-- Where the database is. -/
structure DatabaseSettings where
  path : Text := "data/tables.db".toList
  maxConnections : Nat := 10
deriving DecidableEq, Repr

/-- How to log. -/
structure LoggingSettings where
  /-- Least level logged -/
  level : Text := "info".toList
  filePath : Option Text := none
  format : Text := "text".toList
deriving DecidableEq, Repr

/-- All settings. -/
structure Settings where
  database : DatabaseSettings := {}
  logging : LoggingSettings := {}
  interpreter : Limits := {}
deriving DecidableEq, Repr

/-- Why settings cannot be used. -/
inductive SettingsIssue where
  /-- A file is not an object of settings -/
  | unreadable
  /-- A setting is missing or of the wrong type -/
  | wrongType
  /-- The path of the database is blank -/
  | emptyPath
  /-- No connection is allowed -/
  | noConnections
  | badLevel (level : Text)
  | badFormat (format : Text)
  /-- No row may be shown -/
  | noRows
  /-- No shortcut may be used -/
  | noDepth
deriving DecidableEq, Repr

namespace SettingsIssue

/-- The wording of an issue. -/
def message : SettingsIssue → Text
  | unreadable => "Failed to load configuration".toList
  | wrongType => "Failed to deserialize configuration".toList
  | emptyPath => "database path must not be empty".toList
  | noConnections => "max_connections must be greater than 0".toList
  | badLevel level =>
      "Invalid log level: ".toList ++ level ++
        ". Must be one of: [\"trace\", \"debug\", \"info\", \"warn\", \"error\"]".toList
  | badFormat format =>
      "Invalid log format: ".toList ++ format ++ ". Must be one of: [\"text\", \"json\"]".toList
  | noRows => "response_row_limit must be greater than 0".toList
  | noDepth => "max_shortcut_depth must be greater than 0".toList

end SettingsIssue

namespace SettingTree

/-- The text of a setting. -/
def toText? : SettingTree → Option Text
  | text t => some t
  | flag b => some (if b then "true".toList else "false".toList)
  | whole n => some (if n < 0 then '-' :: Nat.toDigits 10 n.natAbs else Nat.toDigits 10 n.natAbs)
  | real d => some d.shortestText
  | nothing | list _ | group _ => none

/-- The text of a setting that may be left out. -/
def toOptionalText? : Option SettingTree → Option (Option Text)
  | none => some none
  | some nothing => some none
  | some value => value.toText?.map some

/-- The largest count. -/
def maxCount : Nat := 18446744073709551615

/-- The count a text writes: a word for yes or no, or digits. -/
def countOfText? (t : Text) : Option Nat :=
  let word := Text.lower t
  if ["true".toList, "on".toList, "yes".toList].contains word then some 1
  else if ["false".toList, "off".toList, "no".toList].contains word then some 0
  else
    let digits := match t with
      | '+' :: rest => rest
      | _ => t
    if !digits.isEmpty && digits.all Char.isDigit then
      let n := Nat.ofDigitChars 10 digits 0
      if n ≤ maxCount then some n else none
    else none

/-- The count nearest to a number, within the range of counts. -/
def countOfNumber (d : Decimal) : Nat :=
  if d.negative then 0 else min ((d.nearest.natAbs + Nat.pow 2 1073) / Nat.pow 2 1074) maxCount

/-- The count of a setting. -/
def toCount? : SettingTree → Option Nat
  | whole n => if 0 ≤ n then some n.toNat else none
  | flag b => some (if b then 1 else 0)
  | real d => some (countOfNumber d)
  | text t => countOfText? t
  | nothing | list _ | group _ => none

/-- The count of a setting, if it is small enough. -/
def toCountUpTo? (limit : Nat) (tree : SettingTree) : Option Nat :=
  match tree.toCount? with
  | some n => if n ≤ limit then some n else none
  | none => none

/-- Settings of a group by name, or of a list by position. -/
def fields? (names : List String) : SettingTree → Option (List (Option SettingTree))
  | group ms => some (names.map fun n => ms.lookup n.toList)
  | list items =>
      if names.length ≤ items.length then some ((items.take names.length).map some) else none
  | _ => none

end SettingTree

namespace Settings

/-- The settings under all others. -/
def defaults : SettingTree :=
  let given : Settings := {}
  .group [
    ("database".toList, .group [
      ("path".toList, .text given.database.path),
      ("max_connections".toList, .whole given.database.maxConnections)]),
    ("logging".toList, .group [
      ("level".toList, .text given.logging.level),
      ("format".toList, .text given.logging.format)]),
    ("interpreter".toList, .group [
      ("response_row_limit".toList, .whole given.interpreter.replyRows),
      ("max_shortcut_depth".toList, .whole given.interpreter.shortcutDepth)])]

def database? (tree : SettingTree) : Option DatabaseSettings := do
  match ← tree.fields? ["path", "max_connections"] with
  | [some path, some connections] =>
      return ⟨← path.toText?, ← connections.toCountUpTo? 4294967295⟩
  | _ => none

def logging? (tree : SettingTree) : Option LoggingSettings := do
  match ← tree.fields? ["level", "file_path", "format"] with
  | [some level, filePath, some format] =>
      return ⟨← level.toText?, ← SettingTree.toOptionalText? filePath, ← format.toText?⟩
  | _ => none

def interpreter? (tree : SettingTree) : Option Limits := do
  match ← tree.fields? ["response_row_limit", "max_shortcut_depth"] with
  | [some rows, some depth] => return ⟨← rows.toCount?, ← depth.toCount?⟩
  | _ => none

def ofTree? (tree : SettingTree) : Option Settings := do
  match ← tree.fields? ["database", "logging", "interpreter"] with
  | [some database, some logging, some interpreter] =>
      return ⟨← database? database, ← logging? logging, ← interpreter? interpreter⟩
  | _ => none

def levels : List Text :=
  ["trace".toList, "debug".toList, "info".toList, "warn".toList, "error".toList]

def formats : List Text :=
  ["text".toList, "json".toList]

/-- The first thing wrong with settings. -/
def issue? (s : Settings) : Option SettingsIssue :=
  if (Text.trim s.database.path).isEmpty then some .emptyPath
  else if s.database.maxConnections = 0 then some .noConnections
  else if !levels.contains s.logging.level then some (.badLevel s.logging.level)
  else if !formats.contains s.logging.format then some (.badFormat s.logging.format)
  else if s.interpreter.replyRows = 0 then some .noRows
  else if s.interpreter.shortcutDepth = 0 then some .noDepth
  else none

/-- Start of the names of environment variables that hold settings, in lower case. -/
def variableStart : Text := "tables_sms__".toList

/-- Write a point for each pair of underscores. -/
def pointed : Text → Text
  | '_' :: '_' :: rest => '.' :: pointed rest
  | c :: rest => c :: pointed rest
  | [] => []

/-- The setting an environment variable holds, if it holds one. -/
def ofVariable? (v : Text × Text) : Option (Text × SettingTree) :=
  (Text.after? variableStart (Text.lower v.1)).map fun name => (pointed name, .text v.2)

/-- Load settings from files, a missing one being skipped, and the environment. -/
def load (files : List (Option Text)) (environment : List (Text × Text)) :
    Except SettingsIssue Settings :=
  match (files.filterMap id).mapM SettingTree.ofFile? with
  | none => .error .unreadable
  | some layers =>
      let tree := (layers.foldl SettingTree.layer defaults).layer
        (environment.filterMap ofVariable?)
      match ofTree? tree with
      | none => .error .wrongType
      | some settings =>
          match settings.issue? with
          | some issue => .error issue
          | none => .ok settings

/-- What is logged: the filter of the environment, or else the level. -/
def logFilter (environment : Option Text) (level : Text) : Text :=
  environment.getD level

end Settings

end TableTalk
