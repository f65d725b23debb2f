import TableTalk.Message.Handling
import TableTalk.Proofs.Checked.Plans
import TableTalk.Proofs.Checked.Windows
import TableTalk.Proofs.Message.Exchange

/-!
# No message faults

Here a message is handled with checked operations all the way.  A fault in any of them would end
the program, and it would be what the program ends with (`Checked.attempt`).

A program that never faults is one that ends with a result on every branch, and each stage is
exactly the program of its plain counterpart in this sense (`Checked.sound`).  So the branches of
the two agree for all answers, and the conversation with a host is the same one
(`Handling.never_faults`).
-/

namespace TableTalk

namespace Checked

/-! ### Programs that may fault -/

section Programs

variable {α β : Type}

/-- Go on with a result.  A fault ends the program. -/
def attempt (x : Checked α) (next : α → Program (Checked β)) : Program (Checked β) :=
  match x with
  | .ok a => next a
  | .error fault => .done (.error fault)

@[simp] theorem attempt_ok (a : α) (next : α → Program (Checked β)) :
    attempt (.ok a) next = next a := rfl

/-- The program as one that never faults. -/
def sound (p : Program α) : Program (Checked α) :=
  p.bind fun a => .done (.ok a)

/-- A program that never faults is gone on with as if it were not checked. -/
theorem sound_bind (p : Program α) (next : α → Program β) :
    (sound p).bind (fun x => attempt x fun a => sound (next a)) = sound (p.bind next) := by
  induction p with
  | done a => rfl
  | ask request more ih => exact congrArg (Program.ask request) (funext ih)

/-- The run of a program that never faults. -/
theorem run_sound {σ : Type} (host : Host σ) (p : Program α) (s : σ) :
    (sound p).run host s =
      ⟨(p.run host s).result.map .ok, (p.run host s).requests, (p.run host s).state⟩ :=
  Program.run_bind_done host p (fun a => Except.ok a) s

end Programs

/-! ### The stages -/

section Stages

variable (M : Matcher) (limits : Limits) (now : Instant) (message : Message) (table : Table)

/-- Insert the row of an add. -/
def add (args : Text) : Program (Checked (Except Rejection Outcome)) :=
  attempt (row M now table args) fun
    | .error e => .done (.ok (.error e))
    | .ok values =>
        .ask (.insert table values message.sender) fun _ =>
          .done (.ok (.ok (.inserted table.displayName values)))

/-- Answer a plan with free windows. -/
def withWindows (plan : Plan) (slot : SlotRequest) : Program (Checked (Except Rejection Text)) :=
  let column := slot.column.storageName
  let query := (plan.query.withoutConstraintsOn column).setOrderBy column .ascending
  .ask (.select table query [column]) fun (found : List Row) =>
    .done (reply slot.seconds (found.filterMap List.head?) (plan.query.constraintsOn column))

/-- Answer a plan. -/
def toPlan (limit : ℕ) (plan : Plan) : Program (Checked (Except Rejection Text)) :=
  match plan.slot with
  | some slot => withWindows table plan slot
  | none => sound (Reply.withRows limit table plan)

/-- Answer a query. -/
def query (args : Text) : Program (Checked (Except Rejection Outcome)) :=
  attempt (compile M now table args) fun
    | .error e => .done (.ok (.error e))
    | .ok plan =>
        (toPlan table limits.replyRows plan).bind fun x =>
          attempt x fun reply => sound (Handling.deliver message reply)

/-- Carry out the arguments of an admitted command. -/
def work (args : Text) : Command.Mode → Program (Checked (Except Rejection Outcome))
  | .add => add M now message table args
  | .query => query M limits now message table args

/-- Check that a sender may use a table, and go on if so. -/
def check {α : Type} (sender password : Text) (next : Program (Checked (Except Rejection α))) :
    Program (Checked (Except Rejection α)) :=
  match table.accessTable with
  | none => next
  | some accessTable =>
      .ask (.hasCredential accessTable sender password) fun (granted : Bool) =>
        if granted then next else .done (.ok (.error (.unauthorized sender)))

/-- Carry out a command on its table. -/
def onTable (command : Text) : Program (Checked (Except Rejection Outcome)) :=
  match Command.mode command with
  | .error e => .done (.ok (.error e))
  | .ok mode =>
      attempt (splitPassword command) fun (body, password) =>
        check table message.sender password
          (attempt (arguments body) fun args => work M limits now message table args mode)

/-- Carry out an expanded command. -/
def expanded (command : Text) : Program (Checked (Except Rejection Outcome)) :=
  .ask (.findTable (Command.targetName command)) fun (found : Option Table) =>
    match found with
    | none => .done (.ok (.error (.unknownTable (Command.targetName command))))
    | some table => onTable M limits now message table command

/-- Carry out a message. -/
def stages : Program (Checked (Except Rejection Outcome)) :=
  if Command.isCommand message.body then
    .ask .shortcuts fun (shortcuts : List Shortcut) =>
      attempt (expand shortcuts limits.shortcutDepth message.body)
        (expanded M limits now message)
  else .done (.ok (.error .notACommand))

/-- Handle a message received at an instant. -/
def handle : Program (Checked Outcome) :=
  (stages M limits now message).bind fun x =>
    attempt x fun result => sound (.done (Handling.outcome result))

/-! ### No stage faults -/

theorem add_eq (args : Text) :
    add M now message table args = sound (Handling.add now message table args) := by
  unfold add Handling.add
  rw [row_eq, attempt_ok]
  cases Add.row now table args with
  | error e => rfl
  | ok values => rfl

theorem toPlan_eq (limit : ℕ) (plan : Plan) :
    toPlan table limit plan = sound (Reply.toPlan limit table plan) := by
  unfold toPlan Reply.toPlan
  cases plan.slot with
  | none => rfl
  | some slot =>
      simp only [withWindows, reply_eq]
      rfl

theorem query_eq (args : Text) : query M limits now message table args =
    sound (Handling.query limits now message table args) := by
  unfold query Handling.query
  rw [compile_eq, attempt_ok]
  cases Plan.compile now table args with
  | error e => rfl
  | ok plan =>
      dsimp only
      rw [toPlan_eq]
      exact sound_bind _ (Handling.deliver message)

theorem work_eq (args : Text) (mode : Command.Mode) : work M limits now message table args mode =
    sound (Handling.work limits now message table args mode) := by
  cases mode with
  | add => exact add_eq M now message table args
  | query => exact query_eq M limits now message table args

theorem check_eq {α : Type} (sender password : Text) (next : Program (Except Rejection α)) :
    check table sender password (sound next) = sound (Guard.check table sender password next) := by
  unfold check Guard.check
  cases table.accessTable with
  | none => rfl
  | some accessTable =>
      refine congrArg (Program.ask (.hasCredential accessTable sender password)) ?_
      funext granted
      cases granted with
      | false => rfl
      | true => rfl

theorem onTable_eq (command : Text) : onTable M limits now message table command =
    sound (Handling.onTable limits now message command table) := by
  unfold onTable Handling.onTable
  cases Command.mode command with
  | error e => rfl
  | ok mode => simp only [splitPassword_eq, arguments_eq, attempt_ok, work_eq, check_eq]

theorem expanded_eq (command : Text) : expanded M limits now message command =
    sound (Handling.expanded limits now message command) := by
  refine congrArg (Program.ask (.findTable (Command.targetName command))) ?_
  funext found
  cases found with
  | none => rfl
  | some table => exact onTable_eq M limits now message table command

theorem stages_eq : stages M limits now message = sound (Handling.stages limits now message) := by
  unfold stages Handling.stages
  split
  · refine congrArg (Program.ask .shortcuts) ?_
    funext shortcuts
    rw [expand_eq, attempt_ok]
    exact expanded_eq M limits now message _
  · rfl

/-- The whole handling ends with a result on every branch, and has no other branches. -/
theorem handle_eq : handle M limits now message = sound (Handling.handle limits now message) := by
  unfold handle Handling.handle
  rw [stages_eq]
  exact sound_bind _ fun result => .done (Handling.outcome result)

end Stages

end Checked

namespace Handling

/-- **No message faults.**  Slices, positions and groups have results exactly in their domains, and
instants and days are moved except out of the representable years.  With these operations in the
place of the plain ones, and with any engine for regular expressions, no message that is handled
at any instant, on any host and with any limits ends with a fault.  The outcome or failure, the
requests and the state of the host are the same. -/
theorem never_faults :
    (∀ t i j, (∃ s, Text.slice t i j = .ok s) ↔
      i ≤ j ∧ Text.IsBoundary t i ∧ Text.IsBoundary t j) ∧
    (∀ (α : Type) (xs : List α) i, ((∃ x, Checked.item xs i = .ok x) ↔ i < xs.length) ∧
      ∀ x, (∃ ys, Checked.insertAt xs i x = .ok ys) ↔ i ≤ xs.length) ∧
    (∀ caps k, (∃ t, Checked.groupText caps k = .ok t) ↔ ∃ t, (k, t) ∈ caps) ∧
    (∀ (d : Date) (days : ℤ), d.shift days = none ↔
      d.dayNumber + days < daysBeforeYear minYear ∨
        daysBeforeYear (maxYear + 1) ≤ d.dayNumber + days) ∧
    (∀ (t : Instant) (seconds : ℤ), t.advance seconds = none ↔
      seconds ≠ 0 ∧ ¬ Instant.IsSecond (t.movedSecond seconds)) ∧
    ∀ (M : Matcher) (limits : Limits) (now : Instant) (message : Message) (σ : Type)
      (host : Host σ) (s : σ),
      let checked := (Checked.handle M limits now message).run host s
      let plain := (handle limits now message).run host s
      (∀ fault, checked.result ≠ .ok (.error fault)) ∧
        checked.result = plain.result.map .ok ∧ checked.requests = plain.requests ∧
          checked.state = plain.state := by
  refine ⟨fun t i j => Text.exists_slice_iff,
    fun α xs i => ⟨Checked.exists_item_iff, fun x => Checked.exists_insertAt_iff⟩,
    fun caps k => Checked.exists_groupText_iff, fun d days => Date.shift_eq_none_iff,
    fun t seconds => Instant.advance_eq_none_iff_movedSecond, ?_⟩
  intro M limits now message σ host s checked plain
  have hRun : checked = ⟨plain.result.map .ok, plain.requests, plain.state⟩ := by
    show (Checked.handle M limits now message).run host s = _
    rw [Checked.handle_eq]
    exact Checked.run_sound host (handle limits now message) s
  refine ⟨fun fault hFault => ?_, by rw [hRun], by rw [hRun], by rw [hRun]⟩
  rw [hRun] at hFault
  cases hPlain : plain.result with
  | error e =>
      rw [hPlain] at hFault
      cases hFault
  | ok outcome =>
      rw [hPlain] at hFault
      cases hFault

/-- A table with a text column and one of dates and times. -/
def bistro : Table :=
  ⟨['c'], "café".toList,
    [{ storageName := ['p'], displayName := "Prix".toList, type := .text },
      { storageName := ['d'], displayName := "Dès".toList, type := .dateTime }], none⟩

/-- Names, a value and a sign of more than one byte before a move from now. -/
def bistroEntry : Message :=
  ⟨['7'], "@café +Prix 5 € +Dès Now - 2h".toList⟩

/-- The entry is inserted, with checked operations as well. -/
theorem never_faults_bistro :
    ((Checked.handle .backtracking {} (.midnight ⟨2026, 10, 3, by decide⟩) bistroEntry).run
      (Host.ofTable bistro false []) ()).result =
        .ok (.ok (.inserted "café".toList
          [(['d'], "2026-10-02T22:00".toList), (['p'], "5 €".toList)])) := by
  obtain ⟨-, -, -, -, -, hRuns⟩ := never_faults
  obtain ⟨-, hResult, -⟩ := hRuns .backtracking {} (.midnight ⟨2026, 10, 3, by decide⟩) bistroEntry
    Unit (Host.ofTable bistro false []) ()
  rw [hResult]
  decide +kernel

end Handling

end TableTalk
