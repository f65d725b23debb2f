import TableTalk.Message.Handling

/-!
# Counting messages

Every handled message is counted once by how it ended and timed once; a message
that is not handled is counted once more by the reason.
-/

namespace TableTalk

/-- Ways a handling can end. -/
inductive Ending where
  | inserted
  | responded
  | notHandled
  | failed
deriving DecidableEq, Repr

namespace Ending

/-- The name an ending is counted under. -/
def name : Ending → Text
  | inserted => "inserted".toList
  | responded => "responded".toList
  | notHandled => "not_handled".toList
  | failed => "error".toList

def all : List Ending :=
  [inserted, responded, notHandled, failed]

/-- How a handling ended. -/
def ofResult : Except Failure Outcome → Ending
  | .ok (.inserted _ _) => inserted
  | .ok (.responded _) => responded
  | .ok (.notHandled _) => notHandled
  | .error _ => failed

end Ending

/-- Counters over the messages handled so far. -/
structure Metrics where
  messages : Ending → Nat := fun _ => 0
  rejections : Reason → Nat := fun _ => 0
  durations : Nat := 0

namespace Metrics

/-- One more of a kind. -/
def bump {κ : Type} [DecidableEq κ] (count : κ → Nat) (k : κ) : κ → Nat :=
  fun x => if x = k then count x + 1 else count x

/-- Count one handling. -/
def record (m : Metrics) (result : Except Failure Outcome) : Metrics where
  messages := bump m.messages (Ending.ofResult result)
  rejections :=
    match result with
    | .ok (.notHandled cause) => bump m.rejections cause.reason
    | _ => m.rejections
  durations := m.durations + 1

/-- The counters that are not zero, by their full names. -/
def entries (m : Metrics) : List (Text × Nat) :=
  let messages := Ending.all.map fun e =>
    ("tables_sms_messages_total\x7boutcome=".toList ++ e.name ++ ['\x7d'], m.messages e)
  let rejections := Reason.all.map fun r =>
    ("tables_sms_rejections_total\x7breason=".toList ++ r.name ++ ['\x7d'], m.rejections r)
  let durations := [("tables_sms_message_duration_seconds\x7b\x7d".toList, m.durations)]
  (messages ++ rejections ++ durations).filter fun e => e.2 != 0

end Metrics

end TableTalk
