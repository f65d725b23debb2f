import TableTalk.Command
import TableTalk.Shortcut.Pattern

/-!
# Expanding shortcuts

A message that names a shortcut becomes the message its output pattern gives, and
that one may name a shortcut again.  Every name is expanded at most once, so a
cycle ends after one round.  A step that does not give a command does not count,
and of several shortcuts of one name the first that does decides.
-/

namespace TableTalk.Shortcut

/-- The message a shortcut makes of a message, if its input pattern matches the
text after the first space and its output pattern names bound keys only. -/
def applyTo? (s : Shortcut) (message : Text) : Option Text := do
  let (_, args) ← Text.cutAt (· == ' ') message
  let bindings ← (Pattern.ofText s.input).bind args
  (Pattern.ofText s.output).fill (Pattern.valueOf bindings)

/-- One step from a message: the first shortcut of its target name that gives a
command decides. -/
def step? (shortcuts : List Shortcut) (message : Text) : Option Text :=
  shortcuts.findSome? fun s =>
    if s.name = Command.targetName message then
      match s.applyTo? message with
      | some next => if Command.isCommand next then some (Text.trim next) else none
      | none => none
    else none

/-- Take at most so many steps from a message, each name once. -/
def expandFrom (shortcuts : List Shortcut) : Nat → List Text → Text → Text
  | 0, _, message => message
  | limit + 1, used, message =>
      if used.contains (Command.targetName message) then message
      else
        match step? shortcuts message with
        | some next => expandFrom shortcuts limit (Command.targetName message :: used) next
        | none => message

/-- Expand a message through the shortcuts, with at most `depth` steps. -/
def expand (shortcuts : List Shortcut) (depth : Nat) (message : Text) : Text :=
  expandFrom shortcuts (min shortcuts.length depth) [] (Text.trim message)

end TableTalk.Shortcut
