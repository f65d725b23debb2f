import TableTalk.Proofs.Store.Reach

/-!
# Tables under a sequence of messages

Messages come in one after another, from any senders, and the replies to them may fail to
be delivered.  `Database.hostWith` is the database with a delivery that has a state of its
own.  A delivery that fails ends a handling that has only read, and one that succeeds
changes nothing about it (`Database.receive_eq`); so a message does to the tables what it
does where replies are taken as delivered.

After any sequence of messages each data table has the rows it had, and behind them one row
for every outcome that tells of an insertion into it, in the order of the messages; nothing
else has changed in any table (`Database.completed_rows_of_receiveAll`).
-/

namespace TableTalk

/-- A message as it comes in, with the instants it is read and its row is stamped at. -/
structure Arrival where
  limits : Limits
  stamp : Instant
  now : Instant
  message : Message

namespace Database

variable {τ : Type} (deliver : Text → Text → τ → Except Failure Unit × τ)
variable {stamp : Instant}

/-- Answer requests from a database and deliver replies, which may fail. -/
def hostWith (stamp : Instant) : Host (Database × τ)
  | .send phone body, (db, s) => ((deliver phone body s).1, db, (deliver phone body s).2)
  | request, (db, s) => ((host stamp request db).1, (host stamp request db).2, s)

/-- Handle a message that has come in. -/
def receive (a : Arrival) (x : Database × τ) : Run (Database × τ) Outcome :=
  (Handling.handle a.limits a.now a.message).run (hostWith deliver a.stamp) x

/-- Handle messages one after another: each with its result, and where they lead. -/
def receiveAll : List Arrival → Database × τ →
    List (Arrival × Except Failure Outcome) × (Database × τ)
  | [], x => ([], x)
  | a :: rest, x =>
      ((a, (receive deliver a x).result) :: (receiveAll rest (receive deliver a x).state).1,
        (receiveAll rest (receive deliver a x).state).2)

/-! ### Deliveries -/

theorem hostWith_of_not_send (stamp : Instant) (db : Database) (s : τ) {request : Request}
    (h : ∀ phone body, request ≠ .send phone body) :
    hostWith deliver stamp request (db, s) =
      ((host stamp request db).1, (host stamp request db).2, s) := by
  cases request with
  | send phone body => exact absurd rfl (h phone body)
  | _ => rfl

/-- Where no delivery fails, a program runs as if replies were taken as delivered. -/
theorem run_hostWith {α : Type} (stamp : Instant) (p : Program α) (db : Database) (s : τ) :
    ((p.run (hostWith deliver stamp) (db, s)).result = (p.run (host stamp) db).result ∧
      (p.run (hostWith deliver stamp) (db, s)).state.1 = (p.run (host stamp) db).state) ∨
    ∃ phone body e, ⟨.send phone body, .error e⟩ ∈
      p.exchanges (hostWith deliver stamp) (db, s) := by
  induction p generalizing db s with
  | done a => exact Or.inl ⟨rfl, rfl⟩
  | ask request next ih =>
      -- A send is the only request that is not left to the database.
      by_cases hSend : ∃ phone body, request = .send phone body
      · obtain ⟨phone, body, rfl⟩ := hSend
        cases hAnswer : (deliver phone body s).1 with
        | error e =>
            have hFailed : (hostWith deliver stamp (.send phone body) (db, s)).1 = .error e :=
              hAnswer
            exact Or.inr ⟨phone, body, e, Program.failure_mem_exchanges hFailed⟩
        | ok answer =>
            have hSent : (hostWith deliver stamp (.send phone body) (db, s)).1 = .ok answer :=
              hAnswer
            have hTaken : (host stamp (.send phone body) db).1 = .ok answer := rfl
            rw [Program.run_ask_of_ok hSent, Program.run_ask_of_ok hTaken]
            refine (ih answer db (deliver phone body s).2).imp id ?_
            rintro ⟨phone', body', e, hFailed⟩
            exact ⟨phone', body', e, Program.mem_exchanges_of_mem hSent hFailed⟩
      · have hSame := hostWith_of_not_send deliver stamp db s
          fun phone body h => hSend ⟨phone, body, h⟩
        cases hAnswer : (host stamp request db).1 with
        | error e =>
            have hGiven : (hostWith deliver stamp request (db, s)).1 = .error e := by
              rw [hSame, hAnswer]
            rw [Program.run_ask_of_error hGiven, Program.run_ask_of_error hAnswer, hSame]
            exact Or.inl ⟨rfl, rfl⟩
        | ok answer =>
            have hGiven : (hostWith deliver stamp request (db, s)).1 = .ok answer := by
              rw [hSame, hAnswer]
            rw [Program.run_ask_of_ok hGiven, Program.run_ask_of_ok hAnswer]
            rcases ih answer (host stamp request db).2 s with hRun | ⟨phone, body, e, hFailed⟩
            · rw [hSame]
              exact Or.inl hRun
            · refine Or.inr ⟨phone, body, e, Program.mem_exchanges_of_mem hGiven ?_⟩
              rw [hSame]
              exact hFailed

theorem state_of_hostWith (stamp : Instant) (db : Database) (s : τ) {request : Request}
    (h : ∀ table values sender, request ≠ .insert table values sender) :
    (hostWith deliver stamp request (db, s)).2.1 = db := by
  cases request with
  | insert table values sender => exact absurd rfl (h table values sender)
  | _ => rfl

/-- A program that asks for no insertion leaves the database as it is. -/
theorem state_of_run_hostWith {α : Type} (p : Program α) (db : Database) (s : τ)
    (h : ∀ x ∈ p.exchanges (hostWith deliver stamp) (db, s),
      ∀ table values sender, x.request ≠ .insert table values sender) :
    (p.run (hostWith deliver stamp) (db, s)).state.1 = db := by
  induction p generalizing s with
  | done a => rfl
  | ask request next ih =>
      cases hAnswer : (hostWith deliver stamp request (db, s)).1 with
      | error e =>
          rw [Program.run_ask_of_error hAnswer]
          exact state_of_hostWith deliver stamp db s
            (h _ (Program.failure_mem_exchanges hAnswer))
      | ok answer =>
          have hState := state_of_hostWith deliver stamp db s
            (h _ (Program.answer_mem_exchanges hAnswer))
          have hNext : (hostWith deliver stamp request (db, s)).2 =
              (db, (hostWith deliver stamp request (db, s)).2.2) := Prod.ext hState rfl
          rw [Program.run_ask_of_ok hAnswer, hNext]
          refine ih answer _ fun x hx => h x (Program.mem_exchanges_of_mem hAnswer ?_)
          rw [hNext]
          exact hx

/-! ### One message -/

/-- **Deliveries change nothing in the database.**  A message leads the database where it
leads it with replies taken as delivered, and has the same result; or a delivery has failed,
and the message has done nothing. -/
theorem receive_eq (a : Arrival) (db : Database) (s : τ) :
    ((receive deliver a (db, s)).result = (db.handle a.limits a.stamp a.now a.message).result ∧
      (receive deliver a (db, s)).state.1 =
        (db.handle a.limits a.stamp a.now a.message).state) ∨
    ((∃ e, (receive deliver a (db, s)).result = .error e) ∧
      (receive deliver a (db, s)).state.1 = db) := by
  let p := Handling.handle a.limits a.now a.message
  refine (run_hostWith deliver a.stamp p db s).imp id ?_
  rintro ⟨phone, body, e, hFailed⟩
  have hPath := Program.follows_run (hostWith deliver a.stamp) p (db, s)
  obtain ⟨q, hStages, hResult⟩ := Handling.follows_handle hPath
  change (receive deliver a (db, s)).result = _ at hResult
  rcases Handling.follows_stages hStages with
    hStop | ⟨shortcuts, table, mode, ys, -, -, hExchanges, hWork⟩
  · exact (hStop.prepares hFailed).elim
  have hIdle : ∀ x ∈ p.exchanges (hostWith deliver a.stamp) (db, s), x ∈ ys ∨
      x.request.Prepares := by
    intro x hx
    rw [hExchanges] at hx
    exact (List.mem_append.mp hx).symm.imp_right Handling.prepares_of_mem_admission
  -- A reply is sent by the work alone, and there only behind a select.
  have hSent : ⟨.send phone body, .error e⟩ ∈ ys := (hIdle _ hFailed).resolve_right id
  cases hWork with
  | sendFailed plan hPlan found text hReply e' =>
      refine ⟨⟨e', hResult⟩, state_of_run_hostWith deliver p db s fun x hx => ?_⟩
      intro t values sender hInsert
      rcases hIdle x hx with hMem | hPrepares
      · simp only [List.mem_cons, List.not_mem_nil, or_false] at hMem
        rcases hMem with rfl | rfl <;> cases hInsert
      · rw [hInsert] at hPrepares
        exact hPrepares
  | rowRefused | insertFailed | inserted | planRefused | selectFailed | replyRefused
  | responded => simp at hSent

/-- The rows that results tell of a table by its display name, in their order. -/
def rowsTold (displayName : Text) (log : List (Arrival × Except Failure Outcome)) :
    List StoredRow :=
  log.filterMap fun x => rowTold? displayName x.1.stamp x.1.message.sender x.2

end Database

/-- A table with the rows that results tell of it; only data tables are told of. -/
def StoredTable.withTold (log : List (Arrival × Except Failure Outcome)) (u : StoredTable) :
    StoredTable :=
  if u.kind = .data then { u with rows := u.rows ++ Database.rowsTold u.displayName log } else u

theorem StoredTable.withTold_append (u : StoredTable)
    (log log' : List (Arrival × Except Failure Outcome)) :
    (u.withTold log).withTold log' = u.withTold (log ++ log') := by
  by_cases hKind : u.kind = .data
  · simp [withTold, hKind, Database.rowsTold]
  · simp [withTold, hKind]

namespace Database

variable {τ : Type} (deliver : Text → Text → τ → Except Failure Unit × τ)
variable {db : Database}

/-- A result that tells of no insertion tells of no row. -/
theorem withTold_of_not_inserted (a : Arrival) {r : Except Failure Outcome}
    (h : ∀ table values, r ≠ .ok (.inserted table values)) (u : StoredTable) :
    u.withTold [(a, r)] = u := by
  have hTold : rowsTold u.displayName [(a, r)] = [] := by
    rw [rowsTold, List.filterMap_cons, rowTold?_of_not_inserted h]
    rfl
  unfold StoredTable.withTold
  rw [hTold, List.append_nil, ite_self]

/-- A row that is written into a registered table, and told of under its display name, is
written into no other. -/
theorem Registers.update_eq_withTold {t : Table} {rows : List StoredRow}
    (h : db.Registers (.ofTable t rows)) (a : Arrival) (values : RowValues) :
    (db.update t.id fun u => { u with
        rows := u.rows ++ [.finished a.stamp a.message.sender values] }).tables =
      db.tables.map (StoredTable.withTold [(a, .ok (.inserted t.displayName values))]) := by
  refine List.map_congr_left fun u hu => ?_
  have hTold : rowsTold u.displayName [(a, .ok (.inserted t.displayName values))] =
      if t.displayName = u.displayName then
        [.finished a.stamp a.message.sender values] else [] := by
    by_cases hName : t.displayName = u.displayName <;> simp [rowsTold, rowTold?, hName]
  unfold StoredTable.withTold
  rw [hTold]
  by_cases hId : Text.sameLetters u.id t.id = true
  · obtain rfl := h.id_unique u hu hId
    rw [if_pos hId, if_pos h.isData, if_pos (StoredTable.ofTable_displayName t rows).symm]
  · -- A data table of another id has another display name, so that it is not told of.
    rw [if_neg hId]
    split
    · rename_i hKind
      rw [if_neg, List.append_nil]
      intro hName
      exact hId (h.displayName_unique u hu hKind hName.symm ▸ Text.sameLetters_self t.id)
    · rfl

/-- **What a message does to the tables**: it writes the row that its result tells of. -/
theorem tables_of_receive (hSound : db.Sound) (a : Arrival) (s : τ) :
    (receive deliver a (db, s)).state.1.tables =
      db.tables.map (StoredTable.withTold [(a, (receive deliver a (db, s)).result)]) := by
  have hIdle (r : Except Failure Outcome) (h : ∀ table values, r ≠ .ok (.inserted table values)) :
      db.tables = db.tables.map (StoredTable.withTold [(a, r)]) :=
    (List.map_id'' (withTold_of_not_inserted a h) db.tables).symm
  rcases receive_eq deliver a db s with ⟨hResult, hState⟩ | ⟨⟨e, hResult⟩, hState⟩
  · rw [hResult, hState]
    rcases cases_of_handle a.limits a.stamp a.now a.message db with
      ⟨hSame, hNone⟩ | ⟨table, args, values, hFound, hRow, hInsert, hTold⟩
    · rw [hSame]
      exact hIdle _ hNone
    · -- The table that was found is a registered one, and the row of an add always fits.
      obtain ⟨u, hu, hKind, -, hTable⟩ := exists_of_findTable hFound
      obtain ⟨t, rows, ht, rfl, hRegistered⟩ := hSound u hu hKind
      rw [StoredTable.table_ofTable] at hTable
      obtain rfl := Except.ok.inj hTable
      rw [insert_eq ht hRegistered (Add.built_of_row hRow)] at hInsert
      rw [hTold, ← Except.ok.inj hInsert]
      exact hRegistered.update_eq_withTold a values
  · rw [hResult, hState]
    exact hIdle _ nofun

/-- A message keeps every data table registered. -/
theorem Sound.receive (h : db.Sound) (a : Arrival) (s : τ) :
    (receive deliver a (db, s)).state.1.Sound := by
  rcases receive_eq deliver a db s with ⟨-, hState⟩ | ⟨-, hState⟩
  · rw [hState]
    exact h.perform (.handle a.limits a.stamp a.now a.message)
  · rw [hState]
    exact h

/-! ### Many messages -/

theorem tables_of_receiveAll (hSound : db.Sound) (arrivals : List Arrival) (s : τ) :
    (receiveAll deliver arrivals (db, s)).2.1.tables =
      db.tables.map (StoredTable.withTold (receiveAll deliver arrivals (db, s)).1) := by
  induction arrivals generalizing db s with
  | nil =>
      have hNone (u : StoredTable) : u.withTold [] = u := by
        unfold StoredTable.withTold rowsTold
        rw [List.filterMap_nil, List.append_nil, ite_self]
      exact (List.map_id'' hNone db.tables).symm
  | cons a rest ih =>
      -- Every data table is registered after the first message too, whatever it did.
      have hFirst := tables_of_receive deliver hSound a s
      have hRest := ih (hSound.receive deliver a s) (receive deliver a (db, s)).state.2
      rw [hFirst, List.map_map] at hRest
      refine hRest.trans (List.map_congr_left fun u _ => ?_)
      exact u.withTold_append _ _

/-- The values that results tell of a table by its display name, in their order. -/
def valuesTold (displayName : Text) (results : List (Except Failure Outcome)) : List RowValues :=
  results.filterMap fun r =>
    match r with
    | .ok (.inserted table values) => if table = displayName then some values else none
    | _ => none

/-- The row that a result tells holds the values of the result. -/
theorem forall₂_rowsTold (displayName : Text) (log : List (Arrival × Except Failure Outcome)) :
    List.Forall₂ (fun (r : StoredRow) (values : RowValues) =>
        r.isComplete = true ∧ ∀ n, r.value? n = values.get? n)
      (rowsTold displayName log) (valuesTold displayName (log.map Prod.snd)) := by
  induction log with
  | nil => exact List.Forall₂.nil
  | cons x log ih =>
      obtain ⟨a, r⟩ := x
      unfold rowsTold valuesTold at ih ⊢
      rw [List.map_cons, List.filterMap_cons, List.filterMap_cons]
      cases r with
      | error e => exact ih
      | ok o =>
          cases o with
          | responded body | notHandled cause => exact ih
          | inserted table values =>
              by_cases hName : table = displayName
              · have hRow : rowTold? displayName a.stamp a.message.sender
                    (.ok (.inserted table values)) =
                      some (.finished a.stamp a.message.sender values) := if_pos hName
                simp only [hRow, if_pos hName]
                exact List.Forall₂.cons ⟨rfl, fun _ => rfl⟩ ih
              · have hRow : rowTold? displayName a.stamp a.message.sender
                    (.ok (.inserted table values)) = none := if_neg hName
                simp only [hRow, if_neg hName]
                exact ih

theorem isComplete_of_mem_rowsTold {displayName : Text}
    {log : List (Arrival × Except Failure Outcome)} {r : StoredRow}
    (hr : r ∈ rowsTold displayName log) : r.isComplete = true := by
  obtain ⟨x, -, hTold⟩ := List.mem_filterMap.mp hr
  unfold rowTold? at hTold
  split at hTold
  · split at hTold
    · rw [← Option.some.inj hTold]
      rfl
    · cases hTold
  · cases hTold

/-- **No add is lost, repeated or changed.**  Take a database reached from the empty one, a
delivery of replies that may fail in any way, and any messages.  Every data table ends with
the rows it had, the finished ones and the others, and with one finished row behind them for
each result that tells of an insertion into it, in the order of the messages, which holds the
values of the result and no others; every other table ends as it was.  And a message whose
result tells of no insertion leaves the whole database as it is. -/
theorem completed_rows_of_receiveAll (hReaches : empty.Reaches db) (arrivals : List Arrival)
    (s : τ) :
    (∃ added : Text → List StoredRow,
      (receiveAll deliver arrivals (db, s)).2.1.tables = db.tables.map (fun u =>
        if u.kind = .data then { u with rows := u.rows ++ added u.displayName } else u) ∧
      (∀ u ∈ db.tables, u.kind = .data →
        (u.rows ++ added u.displayName).filter StoredRow.isComplete =
          u.rows.filter StoredRow.isComplete ++ added u.displayName) ∧
      ∀ displayName, List.Forall₂ (fun (r : StoredRow) (values : RowValues) =>
          r.isComplete = true ∧ ∀ n, r.value? n = values.get? n)
        (added displayName)
        (valuesTold displayName ((receiveAll deliver arrivals (db, s)).1.map Prod.snd))) ∧
    ∀ (a : Arrival) (x : Database × τ),
      (∀ table values, (receive deliver a x).result ≠ .ok (.inserted table values)) →
        (receive deliver a x).state.1 = x.1 := by
  refine ⟨⟨fun name => rowsTold name (receiveAll deliver arrivals (db, s)).1, ?_, ?_, ?_⟩, ?_⟩
  · exact tables_of_receiveAll deliver (sound_of_reaches hReaches) arrivals s
  · intro u _ _
    rw [List.filter_append, List.filter_eq_self.mpr fun _ => isComplete_of_mem_rowsTold]
  · exact fun name => forall₂_rowsTold name _
  · rintro a ⟨db, s⟩ hNone
    rcases receive_eq deliver a db s with ⟨hResult, hState⟩ | ⟨-, hState⟩
    · rcases cases_of_handle a.limits a.stamp a.now a.message db with
        ⟨hSame, -⟩ | ⟨table, -, values, -, -, -, hTold⟩
      · rw [hState, hSame]
      · exact absurd (hResult.trans hTold) (hNone table.displayName values)
    · exact hState

/-- A table of guests. -/
def lodge : Table :=
  ⟨"lodge".toList, "Lodge".toList,
    [{ storageName := ['g'], displayName := ['G'], type := .text }], none⟩

/-- A database with this table alone. -/
def lodgeDb (rows : List StoredRow) : Database :=
  ⟨[.ofTable lodge rows]⟩

/-- A guest who was not finished. -/
def annRow : StoredRow :=
  ⟨none, none, none, [(['g'], "Ann".toList)]⟩

theorem reaches_lodgeDb : empty.Reaches (lodgeDb [annRow]) := by
  have hWrite : (empty.perform (.define lodge)).append lodge.id [(['g'], some "Ann".toList)] =
      .ok (lodgeDb [annRow]) := by
    rfl
  exact (Reaches.refl.perform (.define lodge)).append hWrite

/-- Replies are not delivered, but counted. -/
def unreachable (_ _ : Text) (count : ℕ) : Except Failure Unit × ℕ :=
  (.error (.transport "no carrier".toList), count + 1)

/-- A message to the lodge. -/
def toLodge (body : Text) : Arrival :=
  ⟨{}, .midnight ⟨2024, 12, 28, by decide⟩, .midnight ⟨2024, 12, 28, by decide⟩, ['7'], body⟩

/-- The row of a guest who is added. -/
def bobRow : StoredRow :=
  .finished (toLodge []).stamp ['7'] [(['g'], "Bob".toList)]

theorem shortcuts_lodgeDb (rows : List StoredRow) (count : ℕ) (stamp : Instant) :
    hostWith unreachable stamp .shortcuts (lodgeDb rows, count) =
      (.ok [], lodgeDb rows, count) := by
  have hNone : (lodgeDb rows).shortcuts = [] := by
    unfold shortcuts lodgeDb StoredTable.ofTable newTable
    simp
  change (Except.ok (lodgeDb rows).shortcuts, lodgeDb rows, count) = _
  rw [hNone]

theorem findTable_lodgeDb (rows : List StoredRow) (count : ℕ) (stamp : Instant) :
    hostWith unreachable stamp (.findTable lodge.displayName) (lodgeDb rows, count) =
      (.ok (some lodge), lodgeDb rows, count) := by
  change ((StoredTable.ofTable lodge rows).table.map some, lodgeDb rows, count) = _
  rw [StoredTable.table_ofTable]
  rfl

/-- A command to the lodge comes to the work on it. -/
theorem receive_lodgeDb (body : Text) (rows : List StoredRow) (count : ℕ) (mode : Command.Mode)
    (result : Except Failure (Except Rejection Outcome)) {x : Database × ℕ}
    (hBody : Command.isCommand body = true)
    (hCommand : Handling.command {} (toLodge body).message [] = body)
    (hLodge : Command.targetName body = lodge.displayName)
    (hMode : Command.mode body = .ok mode)
    (hWork :
      let worked := (Handling.work {} (toLodge body).now (toLodge body).message lodge
        (Handling.commandArguments body) mode).run (hostWith unreachable (toLodge body).stamp)
          (lodgeDb rows, count)
      worked.result = result ∧ worked.state = x) :
    (receive unreachable (toLodge body) (lodgeDb rows, count)).result =
        result.map Handling.outcome ∧
      (receive unreachable (toLodge body) (lodgeDb rows, count)).state = x := by
  rw [← hWork.1, ← hWork.2]
  exact Handling.run_of_open hBody (shortcuts_lodgeDb rows count _) hCommand
    (hLodge ▸ findTable_lodgeDb rows count _) rfl hMode rfl

/-- An add and a question. -/
def lodgeArrivals : List Arrival :=
  [toLodge "@Lodge +G Bob".toList, toLodge "@Lodge ?G".toList]

/-- The guest is added, and the reply to the question is not delivered. -/
def lodgeResults : List (Except Failure Outcome) :=
  [.ok (.inserted lodge.displayName [(['g'], "Bob".toList)]),
    .error (.transport "no carrier".toList)]

theorem results_lodge :
    (receiveAll unreachable lodgeArrivals (lodgeDb [annRow], 0)).1.map Prod.snd =
      lodgeResults := by
  have hAdd :
      (receive unreachable (toLodge "@Lodge +G Bob".toList) (lodgeDb [annRow], 0)).result =
          .ok (.inserted lodge.displayName [(['g'], "Bob".toList)]) ∧
        (receive unreachable (toLodge "@Lodge +G Bob".toList) (lodgeDb [annRow], 0)).state =
          (lodgeDb [annRow, bobRow], 0) := by
    refine receive_lodgeDb _ _ _ .add
      (.ok (.ok (.inserted lodge.displayName [(['g'], "Bob".toList)]))) ?_ ?_ ?_ ?_ ?_
    all_goals decide +kernel
  have hAsk :
      (receive unreachable (toLodge "@Lodge ?G".toList) (lodgeDb [annRow, bobRow], 0)).result =
          .error (.transport "no carrier".toList) ∧
        (receive unreachable (toLodge "@Lodge ?G".toList) (lodgeDb [annRow, bobRow], 0)).state =
          (lodgeDb [annRow, bobRow], 1) := by
    refine receive_lodgeDb _ _ _ .query (.error (.transport "no carrier".toList)) ?_ ?_ ?_ ?_ ?_
    all_goals decide +kernel
  unfold lodgeArrivals lodgeResults
  rw [receiveAll, receiveAll, receiveAll, hAdd.1, hAdd.2, hAsk.1, List.map_cons, List.map_cons,
    List.map_nil]

/-- The unfinished row stays, and one finished row with the guest's name comes behind it. -/
theorem completed_rows_of_receiveAll_lodge :
    empty.Reaches (lodgeDb [annRow]) ∧
      (receiveAll unreachable lodgeArrivals (lodgeDb [annRow], 0)).1.map Prod.snd =
        lodgeResults ∧
      ∃ row : StoredRow, row.isComplete = true ∧
        (∀ n, row.value? n = RowValues.get? [(['g'], "Bob".toList)] n) ∧
        (receiveAll unreachable lodgeArrivals (lodgeDb [annRow], 0)).2.1 =
          lodgeDb [annRow, row] := by
  obtain ⟨⟨added, hTables, -, hAdded⟩, -⟩ :=
    completed_rows_of_receiveAll unreachable reaches_lodgeDb lodgeArrivals 0
  have hTold := hAdded lodge.displayName
  rw [results_lodge] at hTold
  obtain ⟨row, rest, ⟨hComplete, hValues⟩, hRest, hRow⟩ := List.forall₂_cons_right_iff.mp hTold
  obtain rfl := List.forall₂_nil_right_iff.mp hRest
  refine ⟨reaches_lodgeDb, results_lodge, row, hComplete, hValues, ?_⟩
  have hLodge : (receiveAll unreachable lodgeArrivals (lodgeDb [annRow], 0)).2.1.tables =
      [.ofTable lodge ([annRow] ++ added lodge.displayName)] := hTables
  rw [hRow] at hLodge
  exact congrArg Database.mk hLodge

end Database

end TableTalk
