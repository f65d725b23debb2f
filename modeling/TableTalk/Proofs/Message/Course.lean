import TableTalk.Message.Handling
import TableTalk.Proofs.Message.Exchange

/-!
# The courses a handling can take

A handling either stops on the way to its table or is admitted and goes to work
there.  The two halves are listed here once, with everything that was asked and
answered, so that statements about all hosts become case analyses.

* `Stopped` lists the ways to stop before the work, each with the exchanges made
  until then and the result it leads to.
* `admission` is the conversation that leads to the work, and `Working` lists how
  the work can go.
* `follows_stages` and `follows_work` say that the two lists are complete.

A reply is one select followed by a computation on the rows found; `Reply.question`,
`Reply.columns` and `Reply.answer` name the three parts, for rows and for windows.
-/

namespace TableTalk

namespace Reply

/-- The conditions and the ordering a plan is answered with. -/
def question (plan : Plan) : Query :=
  match plan.slot with
  | some slot =>
      (plan.query.withoutConstraintsOn slot.column.storageName).setOrderBy
        slot.column.storageName .ascending
  | none => plan.query

/-- The columns a plan is answered from. -/
def columns (plan : Plan) : List Text :=
  match plan.slot with
  | some slot => [slot.column.storageName]
  | none => plan.projection.map Column.storageName

/-- The reply a plan makes of the rows found. -/
def answer (limit : Nat) (plan : Plan) (found : List Row) : Except Rejection Text :=
  match plan.slot with
  | some slot =>
      FreeWindows.reply slot.seconds (found.filterMap List.head?)
        (plan.query.constraintsOn slot.column.storageName)
  | none => .ok (rows plan.projection found limit)

/-- A plan is answered with one select. -/
theorem toPlan_eq (limit : Nat) (table : Table) (plan : Plan) :
    toPlan limit table plan =
      .ask (.select table (question plan) (columns plan)) fun found =>
        .done (answer limit plan found) := by
  unfold toPlan question columns answer
  cases plan.slot with
  | none => rfl
  | some slot => rfl

end Reply

/-- The request prepares the work on a table: it is about no rows and reaches no one. -/
def Request.Prepares : Request → Prop
  | shortcuts | findTable _ | hasCredential _ _ _ => True
  | select _ _ _ | insert _ _ _ | send _ _ => False

namespace Handling

open Program (Follows)

variable {limits : Limits} {now : Instant} {message : Message}

/-- The message after the shortcuts. -/
def command (limits : Limits) (message : Message) (shortcuts : List Shortcut) : Text :=
  Shortcut.expand shortcuts limits.shortcutDepth message.body

/-- The arguments of a command, its password left out. -/
def commandArguments (command : Text) : Text :=
  Command.arguments (Command.splitPassword command).1

/-- The exchanges that find the table of a command. -/
def lookup (shortcuts : List Shortcut) (command : Text)
    (found : Except Failure (Option Table)) : List Exchange :=
  [⟨.shortcuts, .ok shortcuts⟩, ⟨.findTable (Command.targetName command), found⟩]

/-- The question whether a sender may use a table, and the answer to it. -/
def credential (message : Message) (command accessTable : Text)
    (granted : Except Failure Bool) : Exchange :=
  ⟨.hasCredential accessTable message.sender (Command.splitPassword command).2, granted⟩

/-- The exchanges that lead a command to the work on its table. -/
def admission (message : Message) (shortcuts : List Shortcut) (command : Text)
    (table : Table) : List Exchange :=
  lookup shortcuts command (.ok (some table)) ++
    (table.accessTable.map fun accessTable =>
      credential message command accessTable (.ok true)).toList

theorem admission_of_open {shortcuts : List Shortcut} {command : Text} {table : Table}
    (hGuard : table.accessTable = none) :
    admission message shortcuts command table =
      lookup shortcuts command (.ok (some table)) := by
  simp [admission, hGuard]

theorem admission_of_guarded {shortcuts : List Shortcut} {command accessTable : Text}
    {table : Table} (hGuard : table.accessTable = some accessTable) :
    admission message shortcuts command table =
      lookup shortcuts command (.ok (some table)) ++
        [credential message command accessTable (.ok true)] := by
  simp [admission, hGuard]

/-- The ways to stop before the work on a table. -/
inductive Stopped (limits : Limits) (message : Message) :
    List Exchange → Except Failure (Except Rejection Outcome) → Prop
  | notACommand (hBody : Command.isCommand message.body = false) :
      Stopped limits message [] (.ok (.error .notACommand))
  | withoutShortcuts (hBody : Command.isCommand message.body = true) (e : Failure) :
      Stopped limits message [⟨.shortcuts, .error e⟩] (.error e)
  | withoutLookup (hBody : Command.isCommand message.body = true) (shortcuts : List Shortcut)
      (e : Failure) :
      Stopped limits message
        (lookup shortcuts (command limits message shortcuts) (.error e)) (.error e)
  | unknownTable (hBody : Command.isCommand message.body = true) (shortcuts : List Shortcut) :
      Stopped limits message
        (lookup shortcuts (command limits message shortcuts) (.ok none))
        (.ok (.error (.unknownTable (Command.targetName (command limits message shortcuts)))))
  | withoutMode (hBody : Command.isCommand message.body = true) (shortcuts : List Shortcut)
      (table : Table) (cause : Rejection)
      (hMode : Command.mode (command limits message shortcuts) = .error cause) :
      Stopped limits message
        (lookup shortcuts (command limits message shortcuts) (.ok (some table)))
        (.ok (.error cause))
  | withoutCheck (hBody : Command.isCommand message.body = true) (shortcuts : List Shortcut)
      (table : Table) (accessTable : Text) (hGuard : table.accessTable = some accessTable)
      (mode : Command.Mode) (hMode : Command.mode (command limits message shortcuts) = .ok mode)
      (e : Failure) :
      Stopped limits message
        (lookup shortcuts (command limits message shortcuts) (.ok (some table)) ++
          [credential message (command limits message shortcuts) accessTable (.error e)])
        (.error e)
  | unauthorized (hBody : Command.isCommand message.body = true) (shortcuts : List Shortcut)
      (table : Table) (accessTable : Text) (hGuard : table.accessTable = some accessTable)
      (mode : Command.Mode) (hMode : Command.mode (command limits message shortcuts) = .ok mode) :
      Stopped limits message
        (lookup shortcuts (command limits message shortcuts) (.ok (some table)) ++
          [credential message (command limits message shortcuts) accessTable (.ok false)])
        (.ok (.error (.unauthorized message.sender)))

theorem prepares_of_mem_lookup {shortcuts : List Shortcut} {command : Text}
    {found : Except Failure (Option Table)} {x : Exchange}
    (hx : x ∈ lookup shortcuts command found) : x.request.Prepares := by
  simp only [lookup, List.mem_cons, List.not_mem_nil, or_false] at hx
  rcases hx with rfl | rfl <;> exact trivial

theorem prepares_of_mem_admission {shortcuts : List Shortcut} {command : Text} {table : Table}
    {x : Exchange} (hx : x ∈ admission message shortcuts command table) :
    x.request.Prepares := by
  rcases List.mem_append.mp hx with hx | hx
  · exact prepares_of_mem_lookup hx
  · rw [Option.mem_toList, Option.map_eq_some_iff] at hx
    obtain ⟨accessTable, -, rfl⟩ := hx
    exact trivial

/-- A handling that stops on the way has only prepared. -/
theorem Stopped.prepares {xs : List Exchange} {r : Except Failure (Except Rejection Outcome)}
    (h : Stopped limits message xs r) {x : Exchange} (hx : x ∈ xs) : x.request.Prepares := by
  cases h with
  | notACommand => exact absurd hx List.not_mem_nil
  | withoutShortcuts =>
      rw [List.mem_singleton.mp hx]
      exact trivial
  | withoutLookup | unknownTable | withoutMode => exact prepares_of_mem_lookup hx
  | withoutCheck | unauthorized =>
      rcases List.mem_append.mp hx with hx | hx
      · exact prepares_of_mem_lookup hx
      · rw [List.mem_singleton.mp hx]
        exact trivial

/-- The ways the work on a table can go. -/
inductive Working (limits : Limits) (now : Instant) (message : Message) (table : Table)
    (args : Text) :
    Command.Mode → List Exchange → Except Failure (Except Rejection Outcome) → Prop
  | rowRefused (cause : Rejection) (hRow : Add.row now table args = .error cause) :
      Working limits now message table args .add [] (.ok (.error cause))
  | insertFailed (values : RowValues) (hRow : Add.row now table args = .ok values)
      (e : Failure) :
      Working limits now message table args .add
        [⟨.insert table values message.sender, .error e⟩] (.error e)
  | inserted (values : RowValues) (hRow : Add.row now table args = .ok values) :
      Working limits now message table args .add
        [⟨.insert table values message.sender, .ok ()⟩]
        (.ok (.ok (.inserted table.displayName values)))
  | planRefused (cause : Rejection) (hPlan : Plan.compile now table args = .error cause) :
      Working limits now message table args .query [] (.ok (.error cause))
  | selectFailed (plan : Plan) (hPlan : Plan.compile now table args = .ok plan) (e : Failure) :
      Working limits now message table args .query
        [⟨.select table (Reply.question plan) (Reply.columns plan), .error e⟩] (.error e)
  | replyRefused (plan : Plan) (hPlan : Plan.compile now table args = .ok plan)
      (found : List Row) (cause : Rejection)
      (hReply : Reply.answer limits.replyRows plan found = .error cause) :
      Working limits now message table args .query
        [⟨.select table (Reply.question plan) (Reply.columns plan), .ok found⟩]
        (.ok (.error cause))
  | sendFailed (plan : Plan) (hPlan : Plan.compile now table args = .ok plan)
      (found : List Row) (body : Text)
      (hReply : Reply.answer limits.replyRows plan found = .ok body) (e : Failure) :
      Working limits now message table args .query
        [⟨.select table (Reply.question plan) (Reply.columns plan), .ok found⟩,
          ⟨.send message.sender body, .error e⟩] (.error e)
  | responded (plan : Plan) (hPlan : Plan.compile now table args = .ok plan)
      (found : List Row) (body : Text)
      (hReply : Reply.answer limits.replyRows plan found = .ok body) :
      Working limits now message table args .query
        [⟨.select table (Reply.question plan) (Reply.columns plan), .ok found⟩,
          ⟨.send message.sender body, .ok ()⟩] (.ok (.ok (.responded body)))

theorem follows_add {table : Table} {args : Text} {xs : List Exchange}
    {r : Except Failure (Except Rejection Outcome)}
    (h : Follows (add now message table args) xs r) :
    Working limits now message table args .add xs r := by
  unfold add at h
  cases hRow : Add.row now table args with
  | error cause =>
      rw [hRow] at h
      obtain ⟨rfl, rfl⟩ := h.of_done
      exact .rowRefused cause hRow
  | ok values =>
      rw [hRow] at h
      rcases h.of_ask with ⟨e, rfl, rfl⟩ | ⟨⟨⟩, ys, rfl, hRest⟩
      · exact .insertFailed values hRow e
      · obtain ⟨rfl, rfl⟩ := hRest.of_done
        exact .inserted values hRow

theorem follows_query {table : Table} {args : Text} {xs : List Exchange}
    {r : Except Failure (Except Rejection Outcome)}
    (h : Follows (query limits now message table args) xs r) :
    Working limits now message table args .query xs r := by
  unfold query at h
  cases hPlan : Plan.compile now table args with
  | error cause =>
      rw [hPlan] at h
      obtain ⟨rfl, rfl⟩ := h.of_done
      exact .planRefused cause hPlan
  | ok plan =>
      simp only [hPlan, Reply.toPlan_eq, Program.bind] at h
      rcases h.of_ask with ⟨e, rfl, rfl⟩ | ⟨found, ys, rfl, hRest⟩
      · exact .selectFailed plan hPlan e
      · cases hReply : Reply.answer limits.replyRows plan found with
        | error cause =>
            rw [hReply] at hRest
            obtain ⟨rfl, rfl⟩ := hRest.of_done
            exact .replyRefused plan hPlan found cause hReply
        | ok body =>
            rw [hReply] at hRest
            rcases hRest.of_ask with ⟨e, rfl, rfl⟩ | ⟨⟨⟩, zs, rfl, hSent⟩
            · exact .sendFailed plan hPlan found body hReply e
            · obtain ⟨rfl, rfl⟩ := hSent.of_done
              exact .responded plan hPlan found body hReply

/-- The list of courses of the work is complete. -/
theorem follows_work {table : Table} {args : Text} {mode : Command.Mode} {xs : List Exchange}
    {r : Except Failure (Except Rejection Outcome)}
    (h : Follows (work limits now message table args mode) xs r) :
    Working limits now message table args mode xs r := by
  cases mode with
  | add => exact follows_add h
  | query => exact follows_query h

/-- The check passes an open table by; on any other it fails, refuses or admits. -/
theorem follows_check {α : Type} {table : Table} {sender password : Text}
    {next : Program (Except Rejection α)} {xs : List Exchange}
    {r : Except Failure (Except Rejection α)}
    (h : Follows (Guard.check table sender password next) xs r) :
    (table.accessTable = none ∧ Follows next xs r) ∨
      ∃ accessTable, table.accessTable = some accessTable ∧
        ((∃ e, xs = [⟨.hasCredential accessTable sender password, .error e⟩] ∧ r = .error e) ∨
          (xs = [⟨.hasCredential accessTable sender password, .ok false⟩] ∧
            r = .ok (.error (.unauthorized sender))) ∨
          ∃ ys, xs = ⟨.hasCredential accessTable sender password, .ok true⟩ :: ys ∧
            Follows next ys r) := by
  unfold Guard.check at h
  split at h
  case h_1 hGuard => exact Or.inl ⟨hGuard, h⟩
  case h_2 accessTable hGuard =>
    refine Or.inr ⟨accessTable, hGuard, ?_⟩
    -- The answer is a failure, a no or a yes.
    rcases h.of_ask with ⟨e, rfl, rfl⟩ | ⟨_ | _, ys, rfl, hRest⟩
    · exact Or.inl ⟨e, rfl, rfl⟩
    · obtain ⟨rfl, rfl⟩ := hRest.of_done
      exact Or.inr (Or.inl ⟨rfl, rfl⟩)
    · exact Or.inr (Or.inr ⟨ys, rfl, hRest⟩)

/-- The list of ways to stop is complete: any other path is admitted to the work. -/
theorem follows_stages {xs : List Exchange} {r : Except Failure (Except Rejection Outcome)}
    (h : Follows (stages limits now message) xs r) :
    Stopped limits message xs r ∨
      ∃ shortcuts table mode ys,
        Command.isCommand message.body = true ∧
        Command.mode (command limits message shortcuts) = .ok mode ∧
        xs = admission message shortcuts (command limits message shortcuts) table ++ ys ∧
        Working limits now message table
          (commandArguments (command limits message shortcuts)) mode ys r := by
  unfold stages at h
  split at h
  case isFalse hBody =>
    obtain ⟨rfl, rfl⟩ := h.of_done
    exact Or.inl (.notACommand (by simpa using hBody))
  case isTrue hBody =>
    rcases h.of_ask with ⟨e, rfl, rfl⟩ | ⟨shortcuts, ys, rfl, hLookup⟩
    · exact Or.inl (.withoutShortcuts hBody e)
    rcases hLookup.of_ask with ⟨e, rfl, rfl⟩ | ⟨_ | table, ys, rfl, hFound⟩
    · exact Or.inl (.withoutLookup hBody shortcuts e)
    · obtain ⟨rfl, rfl⟩ := hFound.of_done
      exact Or.inl (.unknownTable hBody shortcuts)
    -- From here on the table is known: the mode is read, then the guard is asked.
    change Follows (onTable limits now message (command limits message shortcuts) table) ys r
      at hFound
    unfold onTable at hFound
    split at hFound
    case h_1 cause hMode =>
      obtain ⟨rfl, rfl⟩ := hFound.of_done
      exact Or.inl (.withoutMode hBody shortcuts table cause hMode)
    case h_2 mode hMode =>
      rcases follows_check hFound with ⟨hGuard, hWork⟩ | ⟨accessTable, hGuard, hCheck⟩
      · refine Or.inr ⟨shortcuts, table, mode, ys, hBody, hMode, ?_, follows_work hWork⟩
        exact congrArg (· ++ ys) (admission_of_open hGuard).symm
      · rcases hCheck with ⟨e, rfl, rfl⟩ | ⟨rfl, rfl⟩ | ⟨zs, rfl, hWork⟩
        · exact Or.inl (.withoutCheck hBody shortcuts table accessTable hGuard mode hMode e)
        · exact Or.inl (.unauthorized hBody shortcuts table accessTable hGuard mode hMode)
        · refine Or.inr ⟨shortcuts, table, mode, zs, hBody, hMode, ?_, follows_work hWork⟩
          exact congrArg (· ++ zs) (admission_of_guarded hGuard).symm

/-- A handling goes through the stages and reports what they led to. -/
theorem follows_handle {xs : List Exchange} {r : Except Failure Outcome}
    (h : Follows (handle limits now message) xs r) :
    ∃ q, Follows (stages limits now message) xs q ∧ r = q.map outcome := by
  rcases h.of_bind with ⟨e, rfl, hStages⟩ | ⟨a, ys, zs, rfl, hStages, hDone⟩
  · exact ⟨.error e, hStages, rfl⟩
  · obtain ⟨rfl, rfl⟩ := hDone.of_done
    rw [List.append_nil]
    exact ⟨.ok a, hStages, rfl⟩

/-- What does more than prepare is part of the work, after the admission. -/
theorem working_of_not_prepares {xs : List Exchange} {r : Except Failure Outcome}
    (h : Follows (handle limits now message) xs r) {x : Exchange} (hx : x ∈ xs)
    (hNot : ¬ x.request.Prepares) :
    ∃ shortcuts table mode ys q,
      Command.mode (command limits message shortcuts) = .ok mode ∧
      xs = admission message shortcuts (command limits message shortcuts) table ++ ys ∧
      x ∈ ys ∧
      Working limits now message table
        (commandArguments (command limits message shortcuts)) mode ys q := by
  obtain ⟨q, hStages, -⟩ := follows_handle h
  rcases follows_stages hStages with
    hStopped | ⟨shortcuts, table, mode, ys, -, hMode, rfl, hWork⟩
  · exact absurd (hStopped.prepares hx) hNot
  · refine ⟨shortcuts, table, mode, ys, q, hMode, rfl, ?_, hWork⟩
    exact (List.mem_append.mp hx).resolve_left fun hAdmitted =>
      hNot (prepares_of_mem_admission hAdmitted)

/-- Where a host gives an open table for a command, the message comes to the work on it. -/
theorem run_of_open {σ : Type} {host : Host σ} {s : σ} {shortcuts : List Shortcut}
    {table : Table} {text : Text} {mode : Command.Mode}
    {worked : Run σ (Except Rejection Outcome)}
    (hBody : Command.isCommand message.body = true)
    (hShortcuts : host .shortcuts s = (.ok shortcuts, s))
    (hCommand : command limits message shortcuts = text)
    (hFound : host (.findTable (Command.targetName text)) s = (.ok (some table), s))
    (hOpen : table.accessTable = none) (hMode : Command.mode text = .ok mode)
    (hWork : (work limits now message table (commandArguments text) mode).run host s = worked) :
    ((handle limits now message).run host s).result = worked.result.map outcome ∧
      ((handle limits now message).run host s).state = worked.state := by
  have hTable : (onTable limits now message text table).run host s = worked := by
    unfold onTable Guard.check
    simp only [hMode, hOpen]
    exact hWork
  have hLookup : (expanded limits now message text).run host s =
      ⟨worked.result, .findTable (Command.targetName text) :: worked.requests, worked.state⟩ := by
    unfold expanded
    rw [Program.run_ask_of_ok (congrArg Prod.fst hFound), hFound, ← hTable]
  have hStages : (stages limits now message).run host s =
      ⟨worked.result, .shortcuts :: .findTable (Command.targetName text) :: worked.requests,
        worked.state⟩ := by
    have hExpanded : Shortcut.expand shortcuts limits.shortcutDepth message.body = text :=
      hCommand
    unfold stages
    rw [if_pos hBody, Program.run_ask_of_ok (congrArg Prod.fst hShortcuts), hShortcuts,
      hExpanded, hLookup]
  unfold handle
  rw [Program.run_bind_done, hStages]
  exact ⟨rfl, rfl⟩

end Handling

end TableTalk
