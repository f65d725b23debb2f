import TableTalk.Store.Hosting
import TableTalk.Proofs.Message.Course
import TableTalk.Proofs.Store.Rows

/-!
# What happens to a database

A database changes by four kinds of operations: tables are defined, shortcuts and
credentials are added, and messages are handled.  An operation that fails leaves it as it
was, and so does a message that inserts nothing (`cases_of_handle`).

For a registered data table only the messages count that insert into it.  One operation
adds the row its outcome tells, or none (`Registers.perform`), so that after any sequence
of operations the table has exactly the rows of the outcomes, in order, behind those it
had before (`Registers.performAll`).
-/

namespace TableTalk

/-- An operation on a database. -/
inductive Operation where
  | define (t : Table)
  | addShortcut (stamp : Instant) (id : Text) (shortcut : Shortcut)
  | grant (stamp : Instant) (id phone password : Text)
  | handle (limits : Limits) (stamp now : Instant) (message : Message)

namespace Database

variable {db db' : Database} {t : Table} {rows : List StoredRow} {stamp now : Instant}
variable {limits : Limits} {message : Message}

/-- The database after an operation. -/
def perform (db : Database) : Operation → Database
  | .define t => (db.written (db.define t)).2
  | .addShortcut stamp id shortcut => (db.written (db.addShortcut stamp id shortcut)).2
  | .grant stamp id phone password => (db.written (db.grant stamp id phone password)).2
  | .handle limits stamp now message => (db.handle limits stamp now message).state

/-- The database after operations, one after another. -/
def performAll : Database → List Operation → Database
  | db, [] => db
  | db, op :: ops => (db.perform op).performAll ops

/-- The row that the result of a handling tells of a table, by its display name. -/
def rowTold? (displayName : Text) (stamp : Instant) (sender : Text) :
    Except Failure Outcome → Option StoredRow
  | .ok (.inserted table values) =>
      if table = displayName then some (.finished stamp sender values) else none
  | _ => none

/-- The row that the outcome of an operation tells of a table. -/
def addedRow? (db : Database) (displayName : Text) : Operation → Option StoredRow
  | .handle limits stamp now message =>
      rowTold? displayName stamp message.sender (db.handle limits stamp now message).result
  | .define _ | .addShortcut _ _ _ | .grant _ _ _ _ => none

/-- The rows that the outcomes of operations tell of a table, in order. -/
def addedRows (displayName : Text) : Database → List Operation → List StoredRow
  | _, [] => []
  | db, op :: ops =>
      (db.addedRow? displayName op).toList ++ addedRows displayName (db.perform op) ops

/-! ### One message -/

/-- Requests other than insertions leave the database as it is. -/
theorem eq_of_gives {xs : List Exchange}
    (hReads : ∀ x ∈ xs, ∀ table values sender, x.request ≠ .insert table values sender)
    (h : (host stamp).Gives xs db db') : db' = db := by
  induction xs generalizing db with
  | nil => exact h
  | cons x xs ih =>
      obtain ⟨-, hRest⟩ := h
      have hSame : (host stamp x.request db).2 = db := by
        cases hRequest : x.request with
        | insert table values sender =>
            exact absurd hRequest (hReads x List.mem_cons_self table values sender)
        | shortcuts => rfl
        | findTable name => rfl
        | hasCredential accessTable phone password => rfl
        | select table query columns => rfl
        | send phone body => rfl
      rw [hSame] at hRest
      exact ih (fun y hy => hReads y (List.mem_cons_of_mem _ hy)) hRest

theorem eq_of_gives_prepares {xs : List Exchange} (hPrepares : ∀ x ∈ xs, x.request.Prepares)
    (h : (host stamp).Gives xs db db') : db' = db := by
  refine eq_of_gives (fun x hx table values sender hInsert => ?_) h
  have hFalse := hPrepares x hx
  rw [hInsert] at hFalse
  exact hFalse

theorem insert_of_host {table : Table} {values : RowValues} {sender : Text}
    (h : (host stamp (.insert table values sender) db).1 = .ok ()) :
    db.insert stamp table values sender =
      .ok (host stamp (.insert table values sender) db).2 := by
  change (db.written (db.insert stamp table values sender)).1 = .ok () at h
  change db.insert stamp table values sender =
    .ok (db.written (db.insert stamp table values sender)).2
  cases hInsert : db.insert stamp table values sender with
  | ok db' => rfl
  | error e =>
      rw [hInsert] at h
      cases h

/-- An insertion that fails changes nothing. -/
theorem eq_of_insert_error {table : Table} {values : RowValues} {sender : Text} {e : Failure}
    (h : (host stamp (.insert table values sender) db).1 = .error e) :
    (host stamp (.insert table values sender) db).2 = db := by
  change (db.written (db.insert stamp table values sender)).1 = .error e at h
  change (db.written (db.insert stamp table values sender)).2 = db
  cases hInsert : db.insert stamp table values sender with
  | ok db' =>
      rw [hInsert] at h
      cases h
  | error e' => rfl

/-- A handling that stops on the way has no outcome but a rejection. -/
theorem not_ok_of_stopped {xs : List Exchange} {r : Except Failure (Except Rejection Outcome)}
    (h : Handling.Stopped limits message xs r) (o : Outcome) : r ≠ .ok (.ok o) := by
  cases h <;> exact fun hOk => by cases hOk

/-- The work on a table inserts the row of its add and tells of it, or it leaves everything
as it was and tells of no row. -/
theorem cases_of_working {table : Table} {args : Text} {mode : Command.Mode}
    {ys : List Exchange} {q : Except Failure (Except Rejection Outcome)}
    (hWork : Handling.Working limits now message table args mode ys q)
    (hGives : (host stamp).Gives ys db db') :
    (db' = db ∧ ∀ name values, q ≠ .ok (.ok (.inserted name values))) ∨
    ∃ values, Add.row now table args = .ok values ∧
      db.insert stamp table values message.sender = .ok db' ∧
      q = .ok (.ok (.inserted table.displayName values)) := by
  cases hWork with
  | inserted values hRow =>
      obtain ⟨hInsert, hState⟩ := hGives
      refine Or.inr ⟨values, hRow, ?_, rfl⟩
      rw [hState]
      exact insert_of_host hInsert
  | insertFailed values hRow e =>
      -- The request was made, but the host has refused it.
      obtain ⟨hInsert, hState⟩ := hGives
      exact Or.inl ⟨hState.trans (eq_of_insert_error hInsert), fun name values => nofun⟩
  | rowRefused | planRefused | selectFailed | replyRefused | sendFailed | responded =>
      exact Or.inl ⟨eq_of_gives (by simp) hGives, fun name values => nofun⟩

/-- **What a message does to a database.**  It leaves everything as it was and tells of no
row, or it finds its table, inserts the row of its add there and tells of it. -/
theorem cases_of_handle (limits : Limits) (stamp now : Instant) (message : Message)
    (db : Database) :
    ((db.handle limits stamp now message).state = db ∧
      ∀ name values, (db.handle limits stamp now message).result ≠ .ok (.inserted name values)) ∨
    ∃ table args values,
      db.findTable (Command.targetName
        (Handling.command limits message db.shortcuts)) = .ok (some table) ∧
      Add.row now table args = .ok values ∧
      db.insert stamp table values message.sender =
        .ok (db.handle limits stamp now message).state ∧
      (db.handle limits stamp now message).result = .ok (.inserted table.displayName values) := by
  have hPath := Program.follows_run (host stamp) (Handling.handle limits now message) db
  have hGives := Program.gives_exchanges (host stamp) (Handling.handle limits now message) db
  change Program.Follows _ _ (db.handle limits stamp now message).result at hPath
  change (host stamp).Gives _ db (db.handle limits stamp now message).state at hGives
  obtain ⟨q, hStages, hResult⟩ := Handling.follows_handle hPath
  rw [hResult]
  -- Rejections become outcomes of their own, so that only insertions are told as such.
  have hNone : (∀ name values, q ≠ .ok (.ok (.inserted name values))) →
      ∀ name values, q.map Handling.outcome ≠ .ok (.inserted name values) := by
    intro hNot name values hInserted
    rcases q with e | cause | o
    · cases hInserted
    · cases hInserted
    · obtain rfl : o = .inserted name values := Except.ok.inj hInserted
      exact hNot name values rfl
  rcases Handling.follows_stages hStages with
    hStop | ⟨shortcuts, table, mode, ys, -, -, hExchanges, hWork⟩
  · exact Or.inl ⟨eq_of_gives_prepares (fun x hx => hStop.prepares hx) hGives,
      hNone fun _ _ => not_ok_of_stopped hStop _⟩
  -- The way to the table has changed nothing, so that the work starts from the same database.
  rw [hExchanges] at hGives
  obtain ⟨middle, hAdmission, hWorked⟩ := hGives.of_append
  have hMiddle : middle = db :=
    eq_of_gives_prepares (fun x hx => Handling.prepares_of_mem_admission hx) hAdmission
  rw [hMiddle] at hWorked
  obtain ⟨hShortcuts, hFound, -⟩ := hAdmission
  obtain rfl : db.shortcuts = shortcuts := Except.ok.inj hShortcuts
  rcases cases_of_working hWork hWorked with ⟨hState, hIdle⟩ | ⟨values, hRow, hInsert, rfl⟩
  · exact Or.inl ⟨hState, hNone hIdle⟩
  · exact Or.inr ⟨table, _, values, hFound, hRow, hInsert, rfl⟩

/-! ### A registered table under operations -/

/-- What holds of a database, and of whatever a writing makes of it, holds after the writing. -/
theorem of_written (P : Database → Prop) {result : Except Failure Database} (h : P db)
    (hWrite : ∀ db', result = .ok db' → P db') : P (db.written result).2 := by
  cases result with
  | ok db' => exact hWrite db' rfl
  | error e => exact h

/-- What definitions, new helper tables and new rows keep, every operation keeps. -/
theorem perform_invariant {P : Database → Prop}
    (hDefine : ∀ {db db' t}, P db → db.define t = .ok db' → P db')
    (hEnsure : ∀ {db db' id kind columns}, P db → db.ensureHelper id kind columns = .ok db' →
      kind ≠ .data → P db')
    (hInsert : ∀ {db db' stamp id values phone}, P db →
      db.insertComplete stamp id values phone = .ok db' → P db')
    (h : P db) (op : Operation) : P (db.perform op) := by
  cases op with
  | define t => exact of_written P h fun _ hDone => hDefine h hDone
  | addShortcut stamp id shortcut =>
      refine of_written P h fun _ hAdd => ?_
      unfold addShortcut at hAdd
      split at hAdd
      · cases hAdd
      · rename_i hMade
        exact hInsert (hEnsure h hMade TableKind.noConfusion) hAdd
  | grant stamp id phone password =>
      refine of_written P h fun _ hGrant => ?_
      unfold grant at hGrant
      split at hGrant
      · cases hGrant
      · rename_i hMade
        exact hInsert (hEnsure h hMade TableKind.noConfusion) hGrant
  | handle limits stamp now message =>
      change P (db.handle limits stamp now message).state
      rcases cases_of_handle limits stamp now message db with
        ⟨hState, -⟩ | ⟨table, args, values, -, -, hRow, -⟩
      · rw [hState]
        exact h
      · unfold insert at hRow
        split at hRow
        · cases hRow
        · exact hInsert h hRow

theorem rowTold?_of_not_inserted {name sender : Text} {r : Except Failure Outcome}
    (h : ∀ table values, r ≠ .ok (.inserted table values)) :
    rowTold? name stamp sender r = none := by
  unfold rowTold?
  split
  · exact absurd rfl (h _ _)
  · rfl

/-- A table that is found, and that is not the registered one, has neither of its names. -/
theorem Registers.cases_of_findTable
    (h : db.Registers (.ofTable t rows)) {name : Text} {table : Table}
    (hFound : db.findTable name = .ok (some table)) :
    table = t ∨ Text.sameLetters t.id table.id = false ∧ table.displayName ≠ t.displayName := by
  obtain ⟨u, hu, hKind, -, hTable⟩ := exists_of_findTable hFound
  by_cases hSame : u = .ofTable t rows
  · rw [hSame, StoredTable.table_ofTable] at hTable
    exact Or.inl (Except.ok.inj hTable).symm
  · refine Or.inr ⟨?_, fun hName => hSame (h.displayName_unique u hu hKind ?_)⟩
    · rw [Bool.eq_false_iff, Text.sameLetters_comm, (StoredTable.names_of_table hTable).1]
      exact fun hId => hSame (h.id_unique u hu hId)
    · rw [← (StoredTable.names_of_table hTable).2, hName, StoredTable.ofTable_displayName]

/-- One message adds the row that its outcome tells of the table, or none. -/
theorem Registers.handle (ht : t.IsDefinable) (h : db.Registers (.ofTable t rows))
    (limits : Limits) (stamp now : Instant) (message : Message) :
    (db.handle limits stamp now message).state.Registers (.ofTable t (rows ++
      (rowTold? t.displayName stamp message.sender
        (db.handle limits stamp now message).result).toList)) := by
  rcases cases_of_handle limits stamp now message db with
    ⟨hState, hNone⟩ | ⟨table, args, values, hFound, hRow, hInsert, hResult⟩
  · rw [hState, rowTold?_of_not_inserted hNone, Option.toList_none, List.append_nil]
    exact h
  · rw [hResult, rowTold?]
    rcases h.cases_of_findTable hFound with rfl | ⟨hId, hName⟩
    · -- The table that was found is this one: the row goes where the outcome says.
      rw [insert_eq ht h (Add.built_of_row hRow)] at hInsert
      rw [← Except.ok.inj hInsert, if_pos rfl]
      exact h.appendRow _
    · -- Another table was found: it is neither told nor written under a name of this one.
      rw [if_neg hName, Option.toList_none, List.append_nil]
      exact h.of_insert hId hInsert

/-- One operation adds the row that its outcome tells of the table, or none. -/
theorem Registers.perform (ht : t.IsDefinable)
    (h : db.Registers (.ofTable t rows)) (op : Operation) :
    (db.perform op).Registers (.ofTable t (rows ++ (db.addedRow? t.displayName op).toList)) := by
  -- Operations that tell of no row keep the table, if they succeed, and everything if not.
  have hWritten (result : Except Failure Database)
      (hKept : ∀ db', result = .ok db' → db'.Registers (.ofTable t rows)) :
      (db.written result).2.Registers (.ofTable t (rows ++ [])) := by
    rw [List.append_nil]
    exact of_written (·.Registers (.ofTable t rows)) h hKept
  cases op with
  | define t' => exact hWritten _ fun _ hDefine => h.of_define hDefine
  | addShortcut stamp id shortcut => exact hWritten _ fun _ hAdd => h.of_addShortcut hAdd
  | grant stamp id phone password => exact hWritten _ fun _ hGrant => h.of_grant hGrant
  | handle limits stamp now message => exact h.handle ht limits stamp now message

/-- A row that a message tells of the table is one that an add to it makes. -/
theorem Registers.ofAdd_of_rowTold (h : db.Registers (.ofTable t rows)) {r : StoredRow}
    (hTold : rowTold? t.displayName stamp message.sender
      (db.handle limits stamp now message).result = some r) : r.OfAdd t := by
  rcases cases_of_handle limits stamp now message db with
    ⟨-, hNone⟩ | ⟨table, args, values, hFound, hRow, -, hResult⟩
  · rw [rowTold?_of_not_inserted hNone] at hTold
    cases hTold
  · rw [hResult, rowTold?] at hTold
    split at hTold
    · rename_i hName
      rcases h.cases_of_findTable hFound with rfl | ⟨-, hOther⟩
      · exact ⟨now, stamp, message.sender, values, Add.built_of_row hRow,
          (Option.some.inj hTold).symm⟩
      · exact absurd hName hOther
    · cases hTold

/-- **Nothing but adds changes a table.**  After any operations a registered data table
has the rows that their outcomes tell of it, in order, behind those it had before. -/
theorem Registers.performAll (ht : t.IsDefinable)
    (h : db.Registers (.ofTable t rows)) (ops : List Operation) :
    (db.performAll ops).Registers (.ofTable t (rows ++ db.addedRows t.displayName ops)) := by
  induction ops generalizing db rows with
  | nil =>
      rw [addedRows, List.append_nil]
      exact h
  | cons op ops ih =>
      rw [addedRows, ← List.append_assoc]
      exact ih (h.perform ht op)

/-- Whatever was added to the table has the form of an add. -/
theorem Registers.ofAdd_of_mem_addedRows (ht : t.IsDefinable)
    (h : db.Registers (.ofTable t rows)) {ops : List Operation} {r : StoredRow}
    (hr : r ∈ db.addedRows t.displayName ops) : r.OfAdd t := by
  induction ops generalizing db rows with
  | nil => exact absurd hr List.not_mem_nil
  | cons op ops ih =>
      rcases List.mem_append.mp hr with hFirst | hRest
      · rw [Option.mem_toList] at hFirst
        cases op with
        | handle limits stamp now message => exact h.ofAdd_of_rowTold hFirst
        | define t' => cases hFirst
        | addShortcut stamp id shortcut => cases hFirst
        | grant stamp id phone password => cases hFirst
      · exact ih (h.perform ht op) hRest

/-! ### Messages that are carried out -/

section Carried

variable {table : Table} {command : Text} {mode : Command.Mode}
variable (hBody : Command.isCommand message.body = true)
variable (hCommand : Handling.command limits message db.shortcuts = command)
variable (hFound : db.findTable (Command.targetName command) = .ok (some table))
variable (hOpen : table.accessTable = none)
include hBody hCommand hFound hOpen

/-- A command on an open table comes to the work on that table. -/
theorem handle_of_open (hMode : Command.mode command = .ok mode)
    {worked : Run Database (Except Rejection Outcome)}
    (hWork : (Handling.work limits now message table (Handling.commandArguments command)
      mode).run (host stamp) db = worked) :
    (db.handle limits stamp now message).result = worked.result.map Handling.outcome ∧
      (db.handle limits stamp now message).state = worked.state := by
  have hGiven : host stamp (.findTable (Command.targetName command)) db =
      (.ok (some table), db) := by
    change db.answered (db.findTable (Command.targetName command)) = _
    rw [hFound]
    rfl
  exact Handling.run_of_open hBody rfl hCommand hGiven hOpen hMode hWork

/-- An add is told with the values it has inserted. -/
theorem handle_of_add (hMode : Command.mode command = .ok .add) {values : RowValues}
    (hRow : Add.row now table (Handling.commandArguments command) = .ok values)
    (hInsert : db.insert stamp table values message.sender = .ok db') :
    (db.handle limits stamp now message).result = .ok (.inserted table.displayName values) ∧
      (db.handle limits stamp now message).state = db' := by
  have hWritten : host stamp (.insert table values message.sender) db = (.ok (), db') := by
    change db.written (db.insert stamp table values message.sender) = _
    rw [hInsert]
    rfl
  have hWork : (Handling.work limits now message table (Handling.commandArguments command)
      .add).run (host stamp) db = ⟨.ok (.ok (.inserted table.displayName values)),
        [.insert table values message.sender], db'⟩ := by
    unfold Handling.work Handling.add
    simp only [hRow, Program.run, hWritten]
  exact handle_of_open hBody hCommand hFound hOpen hMode hWork

/-- A query is answered with what its plan makes of the rows selected. -/
theorem handle_of_query (hMode : Command.mode command = .ok .query) {plan : Plan}
    (hPlan : Plan.compile now table (Handling.commandArguments command) = .ok plan)
    {found : List Row}
    (hSelect : db.select table (Reply.question plan) (Reply.columns plan) = .ok found) :
    (db.handle limits stamp now message).result =
      .ok (Handling.outcome ((Reply.answer limits.replyRows plan found).map .responded)) := by
  have hFoundRows : host stamp (.select table (Reply.question plan) (Reply.columns plan)) db =
      (.ok found, db) := by
    change db.answered (db.select table (Reply.question plan) (Reply.columns plan)) = _
    rw [hSelect]
    rfl
  have hWork : ((Handling.work limits now message table (Handling.commandArguments command)
      .query).run (host stamp) db).result =
        .ok ((Reply.answer limits.replyRows plan found).map .responded) := by
    unfold Handling.work Handling.query
    simp only [hPlan, Reply.toPlan_eq, Program.bind, Program.run, hFoundRows]
    cases Reply.answer limits.replyRows plan found with
    | error cause => rfl
    | ok body => rfl
  rw [(handle_of_open hBody hCommand hFound hOpen hMode rfl).1, hWork]
  rfl

end Carried

end Database

end TableTalk
