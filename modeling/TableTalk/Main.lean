import Std.Time.Zoned
import TableTalk.CommandLine

/-!
# The program

Reads the files and variables a command line needs, runs it, writes the database
back and prints the report.
-/

namespace TableTalk.Main

/-- Environment variables that hold settings. -/
def settingVariables : List String :=
  ["TABLES_SMS__DATABASE__PATH", "TABLES_SMS__DATABASE__MAX_CONNECTIONS",
   "TABLES_SMS__LOGGING__LEVEL", "TABLES_SMS__LOGGING__FILE_PATH", "TABLES_SMS__LOGGING__FORMAT",
   "TABLES_SMS__INTERPRETER__RESPONSE_ROW_LIMIT", "TABLES_SMS__INTERPRETER__MAX_SHORTCUT_DEPTH"]

/-- The variables that are set. -/
def environment : IO (List (Text × Text)) :=
  settingVariables.filterMapM fun name => do
    return (← IO.getEnv name).map fun value => (name.toList, value.toList)

/-- The files among the given paths that can be read. -/
def readFiles (paths : List Text) : IO (List (Text × Text)) :=
  paths.filterMapM fun path => do
    try
      let content ← IO.FS.readFile (String.ofList path)
      return some (path, content.toList)
    catch _ => return none

/-- The clock on the wall. -/
def clock : IO (Option Instant) := do
  let t ← Std.Time.PlainDateTime.now
  let date := Date.ofParts? t.date.year.toInt t.date.month.val.toNat t.date.day.val.toNat
  return date.bind fun d =>
    Instant.ofClock? d t.time.hour.val.toNat t.time.minute.val.toNat t.time.second.val.toNat

/-- Write a file, with the folders it lies in. -/
def writeFile (path content : Text) : IO Unit := do
  let folders := (path.splitOn '/').dropLast
  unless folders.all List.isEmpty do
    IO.FS.createDirAll (String.ofList (Text.join ['/'] folders))
  IO.FS.writeFile (String.ofList path) (String.ofList content)

def print (report : CommandLine.Report) : IO UInt32 := do
  IO.print (String.ofList report.output)
  match report.error with
  | some error => IO.eprintln ("Error: " ++ String.ofList error)
  | none => pure ()
  return UInt32.ofNat report.code

def run (args : List Text) : IO UInt32 := do
  let environment ← environment
  let early : Workspace := ⟨← readFiles CommandLine.settingsFiles, environment⟩
  let path := match CommandLine.settings early with
    | .ok s => s.database.path
    | .error _ => []
  let workspace : Workspace := ⟨← readFiles (CommandLine.readPaths path args), environment⟩
  let some now ← clock | throw (IO.userError "the clock is out of range")
  let (report, after) := CommandLine.run now workspace args
  match after.read? path with
  | some content =>
      if workspace.read? path ≠ some content then writeFile path content
  | none => pure ()
  print report

end TableTalk.Main

def main (args : List String) : IO UInt32 :=
  TableTalk.Main.run (args.map String.toList)
