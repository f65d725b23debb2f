import Mathlib.Data.List.Pairwise
import TableTalk.Proofs.Store.Received

/-!
# Histories of a database

A history is a list of operations, each with whether it succeeded.  An operation that
succeeds does what it says (`Database.carryOut`).  One that fails, for whatever reason,
leaves the database as it was.  The exception are shortcuts and credentials: they take two
steps, of which the first makes their table, and that table stays when the second fails.

Whatever the history of a database, its tables are well named: every id is a name, and no
two are the same up to the case of letters (`History.wellNamed`).  So an id leads to one table
at most, both among the registered ids and in a statement.
-/

namespace TableTalk

/-- The columns of helper tables. -/
def TableKind.helperColumns : TableKind → List Text
  | .data => []
  | .shortcut => Database.shortcutColumns
  | .access => Database.accessColumns

/-- A row for a helper table, which is made if there is none. -/
structure HelperRow where
  kind : TableKind
  id : Text
  stamp : Instant
  /-- Values of the columns, in order -/
  values : List Text
  phone : Text

namespace HelperRow

def ofShortcut (stamp : Instant) (id : Text) (s : Shortcut) : HelperRow :=
  ⟨.shortcut, id, stamp, [s.name, s.input, s.output], []⟩

def ofGrant (stamp : Instant) (id phone password : Text) : HelperRow :=
  ⟨.access, id, stamp, [phone, password], phone⟩

end HelperRow

/-- The row that an operation writes into a helper table. -/
def Operation.helperRow? : Operation → Option HelperRow
  | .addShortcut stamp id s => some (.ofShortcut stamp id s)
  | .grant stamp id phone password => some (.ofGrant stamp id phone password)
  | .define _ | .handle _ _ _ _ => none

/-- Helper rows are those of shortcuts and grants. -/
theorem Operation.cases_of_helperRow {op : Operation} {w : HelperRow}
    (h : op.helperRow? = some w) :
    (∃ stamp id s, op = .addShortcut stamp id s ∧ w = .ofShortcut stamp id s) ∨
      ∃ stamp id phone password, op = .grant stamp id phone password ∧
        w = .ofGrant stamp id phone password := by
  cases op with
  | define t => cases h
  | handle limits stamp now message => cases h
  | addShortcut stamp id s => exact Or.inl ⟨stamp, id, s, rfl, (Option.some.inj h).symm⟩
  | grant stamp id phone password =>
      exact Or.inr ⟨stamp, id, phone, password, rfl, (Option.some.inj h).symm⟩

/-- Operations, oldest first, each with whether it succeeded. -/
abbrev Log := List (Operation × Bool)

namespace Database

variable {db db' start : Database} {op : Operation} {log : Log} {w : HelperRow}

/-- Make a helper table if there is none, and write a row into it. -/
def writeHelper (db : Database) (w : HelperRow) : Except Failure Database :=
  match db.ensureHelper w.id w.kind w.kind.helperColumns with
  | .error e => .error e
  | .ok db => db.insertComplete w.stamp w.id (w.kind.helperColumns.zip w.values) w.phone

/-- The database after an operation, if it succeeds. -/
def carryOut (db : Database) : Operation → Except Failure Database
  | .define t => db.define t
  | .addShortcut stamp id shortcut => db.addShortcut stamp id shortcut
  | .grant stamp id phone password => db.grant stamp id phone password
  | .handle limits stamp now message =>
      (db.handle limits stamp now message).result.map fun _ =>
        (db.handle limits stamp now message).state

/-- What an operation may do to a database, and whether it has succeeded. -/
inductive Step (db : Database) : Operation → Bool → Database → Prop
  | done {op : Operation} {db' : Database} (h : db.carryOut op = .ok db') : Step db op true db'
  /-- A failure of any kind -/
  | failed (op : Operation) : Step db op false db
  /-- A helper table was made, and no row was written -/
  | halfway {op : Operation} {w : HelperRow} {db' : Database} (hRow : op.helperRow? = some w)
      (hMade : db.ensureHelper w.id w.kind w.kind.helperColumns = .ok db') : Step db op false db'

/-- From the first database the operations lead to the second. -/
inductive History (start : Database) : Log → Database → Prop
  | start : History start [] start
  | step {log : Log} {db db' : Database} {op : Operation} {succeeded : Bool}
      (h : History start log db) (hStep : db.Step op succeeded db') :
      History start (log ++ [(op, succeeded)]) db'

/-! ### Steps -/

theorem kind_ne_data_of_helperRow (h : op.helperRow? = some w) : w.kind ≠ .data := by
  rcases Operation.cases_of_helperRow h with ⟨stamp, id, s, -, rfl⟩ | ⟨stamp, id, p, q, -, rfl⟩
  · exact TableKind.noConfusion
  · exact TableKind.noConfusion

theorem carryOut_of_helperRow (h : op.helperRow? = some w) : db.carryOut op = db.writeHelper w := by
  rcases Operation.cases_of_helperRow h with
    ⟨stamp, id, s, rfl, rfl⟩ | ⟨stamp, id, phone, password, rfl, rfl⟩
  · rfl
  · rfl

/-- A message whose handling fails has changed nothing. -/
theorem state_of_handle_error {limits : Limits} {stamp now : Instant} {message : Message}
    {e : Failure} (h : (db.handle limits stamp now message).result = .error e) :
    (db.handle limits stamp now message).state = db := by
  rcases cases_of_handle limits stamp now message db with
    ⟨hState, -⟩ | ⟨table, args, values, -, -, -, hTold⟩
  · exact hState
  · rw [hTold] at h
    cases h

/-- With failures passed over, an operation leads where it leads when it succeeds. -/
theorem perform_eq (db : Database) (op : Operation) :
    db.perform op = (db.written (db.carryOut op)).2 := by
  cases op with
  | define t => rfl
  | addShortcut stamp id s => rfl
  | grant stamp id phone password => rfl
  | handle limits stamp now message =>
      change (db.handle limits stamp now message).state = (db.written
        ((db.handle limits stamp now message).result.map fun _ =>
          (db.handle limits stamp now message).state)).2
      cases hResult : (db.handle limits stamp now message).result with
      | ok o => rfl
      | error e => exact state_of_handle_error hResult

/-- What an operation does is one of its steps. -/
theorem step_perform (db : Database) (op : Operation) :
    db.Step op (db.carryOut op).isOk (db.perform op) := by
  rw [perform_eq]
  cases hDone : db.carryOut op with
  | ok db' => exact .done hDone
  | error e => exact .failed op

/-- A message that comes in is handled in one of these steps, however its reply fares. -/
theorem step_receive {τ : Type} (deliver : Text → Text → τ → Except Failure Unit × τ)
    (a : Arrival) (s : τ) :
    db.Step (.handle a.limits a.stamp a.now a.message) (receive deliver a (db, s)).result.isOk
      (receive deliver a (db, s)).state.1 := by
  rcases receive_eq deliver a db s with ⟨hResult, hState⟩ | ⟨⟨e, hResult⟩, hState⟩
  · have hStep := step_perform db (.handle a.limits a.stamp a.now a.message)
    have hOk : (db.carryOut (.handle a.limits a.stamp a.now a.message)).isOk =
        (db.handle a.limits a.stamp a.now a.message).result.isOk := by
      change ((db.handle a.limits a.stamp a.now a.message).result.map fun _ =>
        (db.handle a.limits a.stamp a.now a.message).state).isOk = _
      cases (db.handle a.limits a.stamp a.now a.message).result <;> rfl
    rw [hResult, hState, ← hOk]
    exact hStep
  · rw [hResult, hState]
    exact .failed _

/-- What operations keep, and the making of a helper table as well, holds after any history. -/
theorem History.invariant {P : Database → Prop} (hStart : P start)
    (hPerform : ∀ db op, P db → P (db.perform op))
    (hMade : ∀ db db' id kind, kind ≠ .data → P db →
      db.ensureHelper id kind kind.helperColumns = .ok db' → P db')
    (h : start.History log db) : P db := by
  induction h with
  | start => exact hStart
  | @step _ db db' op _ _ hStep ih =>
      cases hStep with
      | done hDone =>
          have hNext := hPerform db op ih
          rwa [perform_eq, hDone] at hNext
      | failed => exact ih
      | halfway hRow hEnsure =>
          exact hMade _ _ _ _ (kind_ne_data_of_helperRow hRow) ih hEnsure

/-- Every data table is registered, as a table that could be defined. -/
theorem History.sound (h : empty.History log db) : db.Sound :=
  h.invariant sound_empty (fun _ op hSound => hSound.perform op)
    fun _ _ _ _ hKind hSound hEnsure => hSound.of_ensureHelper hEnsure hKind

/-- A data table that was registered stays so. -/
theorem History.exists_registers {t : Table} {rows : List StoredRow} (ht : t.IsDefinable)
    (hStart : start.Registers (.ofTable t rows)) (h : start.History log db) :
    ∃ rows', db.Registers (.ofTable t rows') := by
  refine h.invariant (P := fun db => ∃ rows', db.Registers (.ofTable t rows')) ⟨rows, hStart⟩ ?_ ?_
  · rintro db op ⟨rows', hRegistered⟩
    exact ⟨_, hRegistered.perform ht op⟩
  · rintro db db' id kind hKind ⟨rows', hRegistered⟩ hEnsure
    exact ⟨rows', hRegistered.of_ensureHelper hEnsure hKind⟩

/-! ### Ids -/

/-- Every id is a name, and no two are the same up to the case of letters. -/
structure WellNamed (db : Database) : Prop where
  isName : ∀ u ∈ db.tables, Statement.isName u.id = true
  apart : db.tables.Pairwise fun a b => Text.sameLetters a.id b.id = false

namespace WellNamed

variable {u v : StoredTable}

theorem empty : Database.empty.WellNamed where
  isName _ hu := absurd hu List.not_mem_nil
  apart := List.Pairwise.nil

theorem eq_of_sameLetters (h : db.WellNamed) (hu : u ∈ db.tables) (hv : v ∈ db.tables)
    (hSame : Text.sameLetters u.id v.id = true) : u = v := by
  by_contra hNe
  have hSymmetric : Std.Symm fun a b : StoredTable => Text.sameLetters a.id b.id = false :=
    ⟨fun a b hApart => (Text.sameLetters_comm _ _).trans hApart⟩
  exact Bool.false_ne_true ((h.apart.forall hu hv hNe).symm.trans hSame)

theorem eq_of_id (h : db.WellNamed) (hu : u ∈ db.tables) (hv : v ∈ db.tables)
    (hSame : u.id = v.id) : u = v :=
  h.eq_of_sameLetters hu hv (hSame ▸ Text.sameLetters_self u.id)

theorem nodup (h : db.WellNamed) : db.tables.Nodup :=
  h.apart.imp fun {a b} hApart hSame => by
    rw [hSame, Text.sameLetters_self] at hApart
    cases hApart

/-- A registered id leads to its table. -/
theorem withId (h : db.WellNamed) (hu : u ∈ db.tables) : db.withId u.id = some u :=
  Traversal.find?_eq_some_of_unique hu (beq_self_eq_true _) fun _ hv hSame =>
    h.eq_of_id hv hu (beq_iff_eq.mp hSame)

/-- So does it in a statement. -/
theorem named (h : db.WellNamed) (hu : u ∈ db.tables) : db.named u.id = some u :=
  Traversal.find?_eq_some_of_unique hu (Text.sameLetters_self u.id) fun _ hv hSame =>
    h.eq_of_sameLetters hv hu hSame

/-- A table with a free name is added. -/
theorem add (h : db.WellNamed) (hName : Statement.isName u.id = true)
    (hFree : ∀ v ∈ db.tables, Text.sameLetters v.id u.id = false) :
    WellNamed { db with tables := db.tables ++ [u] } where
  isName v hv := by
    rcases List.mem_append.mp hv with hv | hv
    · exact h.isName v hv
    · rwa [List.mem_singleton.mp hv]
  apart := by
    refine List.pairwise_append.mpr ⟨h.apart, List.pairwise_singleton _ _, fun a ha b hb => ?_⟩
    rw [List.mem_singleton.mp hb]
    exact hFree a ha

/-- A change of rows changes no id. -/
theorem update (h : db.WellNamed) (name : Text) (change : List StoredRow → List StoredRow) :
    (db.update name fun u => { u with rows := change u.rows }).WellNamed := by
  have hId (u : StoredTable) :
      (if Text.sameLetters u.id name then { u with rows := change u.rows } else u).id = u.id := by
    split <;> rfl
  constructor
  · intro v hv
    obtain ⟨u, hu, rfl⟩ := List.mem_map.mp hv
    rw [hId]
    exact h.isName u hu
  · refine List.pairwise_map.mpr (h.apart.imp fun {a b} hApart => ?_)
    rw [hId, hId]
    exact hApart

theorem of_define {t : Table} (h : db.WellNamed) (hDefine : db.define t = .ok db') :
    db'.WellNamed := by
  obtain ⟨ht, hIds, -, rfl⟩ := Database.of_define hDefine
  exact h.add ht.id_isName hIds

theorem of_ensureHelper {id : Text} {kind : TableKind} {columns : List Text} (h : db.WellNamed)
    (hEnsure : db.ensureHelper id kind columns = .ok db') : db'.WellNamed := by
  obtain ⟨hName, ⟨rfl, -⟩ | ⟨-, hIds, rfl⟩⟩ := cases_of_ensureHelper hEnsure
  · exact h
  · exact h.add hName hIds

theorem of_insertComplete {stamp : Instant} {id phone : Text} {values : List (Text × Text)}
    (h : db.WellNamed) (hInsert : db.insertComplete stamp id values phone = .ok db') :
    db'.WellNamed := by
  obtain ⟨row, rfl⟩ := exists_of_insertComplete hInsert
  exact h.update id (· ++ [row])

theorem perform (h : db.WellNamed) (op : Operation) : (db.perform op).WellNamed :=
  perform_invariant of_define (fun hNamed hEnsure _ => hNamed.of_ensureHelper hEnsure)
    of_insertComplete h op

end WellNamed

theorem WellNamed.of_history (hStart : start.WellNamed) (h : start.History log db) :
    db.WellNamed :=
  h.invariant hStart (fun _ op hNamed => hNamed.perform op)
    fun _ _ _ _ _ hNamed hEnsure => hNamed.of_ensureHelper hEnsure

/-- **Ids are kept apart** by every history. -/
theorem History.wellNamed (h : Database.empty.History log db) : db.WellNamed :=
  WellNamed.empty.of_history h

end Database

end TableTalk
