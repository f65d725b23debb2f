import TableTalk.Text.Cut

/-!
# Files a run works with

A workspace holds the contents of files by their paths, and the environment.
Folders exist as far as files lie in them.  Two paths are the same when they
differ only in empty steps and steps that stay in place.
-/

namespace TableTalk

/-- A path as steps; an absolute path opens with an empty step. -/
def pathSteps (path : Text) : List Text :=
  let steps := (path.splitOn '/').filter fun s => !s.isEmpty && s != ['.']
  match path with
  | '/' :: _ => [] :: steps
  | _ => steps

/-- Files and environment of a run. -/
structure Workspace where
  /-- Contents of files, by path -/
  files : List (Text × Text) := []
  environment : List (Text × Text) := []
deriving DecidableEq, Repr

namespace Workspace

def read? (w : Workspace) (path : Text) : Option Text :=
  (w.files.find? fun f => pathSteps f.1 == pathSteps path).map Prod.snd

/-- A file lies below the path. -/
def isFolder (w : Workspace) (path : Text) : Bool :=
  w.files.any fun f =>
    (pathSteps path).isPrefixOf (pathSteps f.1) && pathSteps f.1 != pathSteps path

/-- A folder of the path is taken by a file. -/
def isBlocked (w : Workspace) (path : Text) : Bool :=
  w.files.any fun f =>
    (pathSteps f.1).isPrefixOf (pathSteps path) && pathSteps f.1 != pathSteps path

/-- The workspace with a file written. -/
def write (w : Workspace) (path content : Text) : Workspace :=
  { w with files :=
      (path, content) :: w.files.filter fun f => pathSteps f.1 != pathSteps path }

end Workspace

end TableTalk
