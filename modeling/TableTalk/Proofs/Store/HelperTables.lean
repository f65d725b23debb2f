import TableTalk.Proofs.Store.History

/-!
# Helper tables

Shortcuts and credentials are rows of helper tables.  `Database.Holds` says that the helper
tables of a database hold given rows, each table its own ones in their order, and no others.
Every operation keeps this: one that succeeds in writing a row adds it behind the others, and
all the rest leave the helper tables as they are.  In particular an insertion on behalf of a
message never goes into a helper table, since it goes by the id of a data table and ids are
kept apart.

So after any history the helper tables hold the rows of the operations that succeeded, in
their order (`History.holds`).
-/

namespace TableTalk

/-- A row of a helper table as it is stored. -/
def HelperRow.stored (w : HelperRow) : StoredRow :=
  .finished w.stamp w.phone (w.kind.helperColumns.zip w.values)

/-- A helper table that holds some rows. -/
def StoredTable.ofHelper (kind : TableKind) (id : Text) (rows : List StoredRow) : StoredTable :=
  { Database.newHelper id kind kind.helperColumns with rows := rows }

/-- What the operations that succeeded give, in order. -/
def Log.done {α : Type} (give : Operation → Option α) (log : Log) : List α :=
  log.filterMap fun x => if x.2 then give x.1 else none

/-- The rows that operations have written into helper tables. -/
def Log.helperRows (log : Log) : List HelperRow :=
  log.done Operation.helperRow?

/-- Of these rows the ones of a table, as they are stored. -/
def HelperRow.storedIn (rs : List HelperRow) (kind : TableKind) (id : Text) : List StoredRow :=
  (rs.filter fun w => w.kind = kind ∧ w.id = id).map HelperRow.stored

section Done

variable {α : Type} {give : Operation → Option α} {log : Log}

theorem Log.done_append (log : Log) (op : Operation) (succeeded : Bool) :
    done give (log ++ [(op, succeeded)]) =
      done give log ++ (if succeeded then give op else none).toList := by
  unfold done
  rw [List.filterMap_append]
  cases succeeded <;> cases hGiven : give op <;> simp [hGiven]

theorem Log.mem_done_iff {a : α} :
    a ∈ done give log ↔ ∃ op, (op, true) ∈ log ∧ give op = some a := by
  unfold done
  simp

end Done

theorem Log.helperRows_append (log : Log) (op : Operation) (succeeded : Bool) :
    helperRows (log ++ [(op, succeeded)]) =
      helperRows log ++ (if succeeded then op.helperRow? else none).toList :=
  done_append log op succeeded

theorem HelperRow.storedIn_append (rs : List HelperRow) (w : HelperRow) (kind : TableKind)
    (id : Text) :
    storedIn (rs ++ [w]) kind id =
      storedIn rs kind id ++ if w.kind = kind ∧ w.id = id then [w.stored] else [] := by
  unfold storedIn
  by_cases hOwn : w.kind = kind ∧ w.id = id <;> simp [hOwn]

namespace Database

variable {db db' : Database} {rs : List HelperRow} {w : HelperRow} {op : Operation}
  {u : StoredTable} {log : Log}

/-- There is a table for a helper row. -/
def HasTable (db : Database) (w : HelperRow) : Prop :=
  ∃ u ∈ db.tables, u.kind = w.kind ∧ u.id = w.id

theorem HasTable.append (h : db.HasTable w) (u : StoredTable) :
    HasTable { db with tables := db.tables ++ [u] } w := by
  obtain ⟨v, hv, hOwn⟩ := h
  exact ⟨v, List.mem_append_left _ hv, hOwn⟩

theorem HasTable.update (h : db.HasTable w) (name : Text)
    (change : List StoredRow → List StoredRow) :
    (db.update name fun u => { u with rows := change u.rows }).HasTable w := by
  obtain ⟨v, hv, hOwn⟩ := h
  refine ⟨_, List.mem_map_of_mem hv, ?_⟩
  split <;> exact hOwn

/-- The helper tables hold these rows and no others, and none of these is missing. -/
structure Holds (db : Database) (rs : List HelperRow) : Prop where
  rows : ∀ u ∈ db.tables, u.kind ≠ .data →
    u = .ofHelper u.kind u.id (HelperRow.storedIn rs u.kind u.id)
  hasTable : ∀ w ∈ rs, db.HasTable w

namespace Holds

theorem empty : Database.empty.Holds [] where
  rows _ hu := absurd hu List.not_mem_nil
  hasTable _ hw := absurd hw List.not_mem_nil

/-- A data table is added. -/
theorem of_define {t : Table} (h : db.Holds rs) (hDefine : db.define t = .ok db') :
    db'.Holds rs := by
  obtain ⟨-, -, -, rfl⟩ := Database.of_define hDefine
  constructor
  · intro u hu hKind
    rcases List.mem_append.mp hu with hu | hu
    · exact h.rows u hu hKind
    · rw [List.mem_singleton.mp hu] at hKind
      exact absurd rfl hKind
  · exact fun w hw => (h.hasTable w hw).append _

/-- No row is written for an id that is free. -/
theorem storedIn_of_free {id : Text} (h : db.Holds rs) (hFree : db.withId id = none)
    (kind : TableKind) : HelperRow.storedIn rs kind id = [] := by
  unfold HelperRow.storedIn
  rw [List.map_eq_nil_iff, List.filter_eq_nil_iff]
  intro w hw hOwn
  obtain ⟨v, hv, -, hId⟩ := h.hasTable w hw
  have hOther := List.find?_eq_none.mp hFree v hv
  simp [hId, (of_decide_eq_true hOwn).2] at hOther

/-- A helper table that is made holds no rows, and there were none to hold. -/
theorem of_ensureHelper {id : Text} {kind : TableKind} (h : db.Holds rs)
    (hEnsure : db.ensureHelper id kind kind.helperColumns = .ok db') : db'.Holds rs := by
  obtain ⟨-, ⟨rfl, -⟩ | ⟨hFree, -, rfl⟩⟩ := cases_of_ensureHelper hEnsure
  · exact h
  constructor
  · intro u hu hKind
    rcases List.mem_append.mp hu with hu | hu
    · exact h.rows u hu hKind
    · rw [List.mem_singleton.mp hu]
      change newHelper id kind kind.helperColumns =
        StoredTable.ofHelper kind id (HelperRow.storedIn rs kind id)
      rw [h.storedIn_of_free hFree]
      rfl
  · exact fun w hw => (h.hasTable w hw).append _

/-- A row that is written into a data table goes into no helper table. -/
theorem of_dataRow (h : db.Holds rs) (hNamed : db.WellNamed) (hu : u ∈ db.tables)
    (hData : u.kind = .data) (row : StoredRow) :
    (db.update u.id fun v => { v with rows := v.rows ++ [row] }).Holds rs := by
  constructor
  · intro v' hv' hKind
    obtain ⟨v, hv, rfl⟩ := List.mem_map.mp hv'
    split at hKind
    · rename_i hSame
      -- The row goes into the data table itself.
      rw [hNamed.eq_of_sameLetters hv hu hSame] at hKind
      exact absurd hData hKind
    · rename_i hOther
      rw [if_neg hOther]
      exact h.rows v hv hKind
  · exact fun w hw => (h.hasTable w hw).update u.id (· ++ [row])

/-- The cells of a helper row become the row that is stored. -/
theorem foldlM_writeCell_helper (hRow : op.helperRow? = some w) (rows : List StoredRow) :
    ((w.kind.helperColumns.zip w.values).map (fun v => (v.1, some v.2)) ++
        [(Bookkeeping.saved, some Bookkeeping.complete), (Bookkeeping.phone, some w.phone),
          (Bookkeeping.timestamp, some w.stamp.stored)]).foldlM
        (writeCell (.ofHelper w.kind w.id rows) w.id) ⟨none, none, none, []⟩ =
      .ok w.stored := by
  rcases Operation.cases_of_helperRow hRow with
    ⟨stamp, id, s, -, rfl⟩ | ⟨stamp, id, phone, password, -, rfl⟩
  · rfl
  · rfl

/-- A row of a helper table is written at its end. -/
theorem insertComplete_eq (hRow : op.helperRow? = some w) (hName : Statement.isName w.id = true)
    {rows : List StoredRow} (hTable : db.named w.id = some (.ofHelper w.kind w.id rows)) :
    db.insertComplete w.stamp w.id (w.kind.helperColumns.zip w.values) w.phone =
      .ok (db.update w.id fun u => { u with rows := u.rows ++ [w.stored] }) := by
  have hColumns : ∀ n ∈ w.kind.helperColumns, Statement.isName n = true := by
    cases w.kind <;> decide
  have hNames : checkNames (w.id :: (w.kind.helperColumns.zip w.values).map Prod.fst) =
      .ok () := by
    refine checkNames_eq_ok fun n hn => ?_
    rcases List.mem_cons.mp hn with rfl | hn
    · exact hName
    · obtain ⟨v, hv, rfl⟩ := List.mem_map.mp hn
      exact hColumns v.1 (List.of_mem_zip hv).1
  unfold insertComplete append
  simp only [hNames, hTable, foldlM_writeCell_helper hRow]

/-- **Writing a helper row** makes the table, if there is none, and adds the row to it.  When
the table can be had the row is written. -/
theorem writeHelper_eq (h : db.Holds rs) (hNamed : db.WellNamed)
    (hRow : op.helperRow? = some w) :
    db.writeHelper w = (db.ensureHelper w.id w.kind w.kind.helperColumns).map fun db₁ =>
      db₁.update w.id fun u => { u with rows := u.rows ++ [w.stored] } := by
  unfold writeHelper
  cases hEnsure : db.ensureHelper w.id w.kind w.kind.helperColumns with
  | error e => rfl
  | ok db₁ =>
      obtain ⟨v, hv, hId, hKind⟩ := exists_of_ensureHelper hEnsure
      have hNamed₁ := hNamed.of_ensureHelper hEnsure
      have hForm := (h.of_ensureHelper hEnsure).rows v hv
        (hKind ▸ kind_ne_data_of_helperRow hRow)
      have hTable := hNamed₁.named hv
      rw [hForm, hId, hKind] at hTable
      exact insertComplete_eq hRow (hId ▸ hNamed₁.isName v hv) hTable

/-- A helper row that is written stands behind the others. -/
theorem of_writeHelper (h : db.Holds rs) (hNamed : db.WellNamed)
    (hRow : op.helperRow? = some w) (hWrite : db.writeHelper w = .ok db') :
    db'.Holds (rs ++ [w]) := by
  rw [h.writeHelper_eq hNamed hRow] at hWrite
  obtain ⟨db₁, hEnsure, rfl⟩ := Traversal.map_eq_ok_iff.mp hWrite
  have h₁ := h.of_ensureHelper hEnsure
  have hNamed₁ := hNamed.of_ensureHelper hEnsure
  obtain ⟨v, hv, hId, hKind⟩ := exists_of_ensureHelper hEnsure
  constructor
  · intro u' hu' hHelper
    obtain ⟨u, hu, rfl⟩ := List.mem_map.mp hu'
    by_cases hSame : Text.sameLetters u.id w.id = true
    · -- The table that is written into is the one that was asked for.
      obtain rfl : u = v := hNamed₁.eq_of_sameLetters hu hv (hId ▸ hSame)
      have hForm := h₁.rows u hu (hKind ▸ kind_ne_data_of_helperRow hRow)
      rw [if_pos hSame]
      change _ = StoredTable.ofHelper u.kind u.id (HelperRow.storedIn (rs ++ [w]) u.kind u.id)
      rw [HelperRow.storedIn_append, if_pos ⟨hKind.symm, hId.symm⟩]
      conv_lhs => rw [hForm]
      rfl
    · rw [if_neg hSame] at hHelper ⊢
      have hOther : ¬ (w.kind = u.kind ∧ w.id = u.id) := by
        rintro ⟨-, hSameId⟩
        exact hSame (hSameId ▸ Text.sameLetters_self w.id)
      rw [HelperRow.storedIn_append, if_neg hOther, List.append_nil]
      exact h₁.rows u hu hHelper
  · intro x hx
    have hTable : db₁.HasTable x := by
      rcases List.mem_append.mp hx with hx | hx
      · exact h₁.hasTable x hx
      · rw [List.mem_singleton.mp hx]
        exact ⟨v, hv, hKind, hId⟩
    exact hTable.update w.id (· ++ [w.stored])

/-- A message writes no helper row. -/
theorem of_handle (h : db.Holds rs) (hNamed : db.WellNamed) (limits : Limits)
    (stamp now : Instant) (message : Message) :
    (db.handle limits stamp now message).state.Holds rs := by
  rcases cases_of_handle limits stamp now message db with
    ⟨hState, -⟩ | ⟨table, args, values, hFound, -, hInsert, -⟩
  · rw [hState]
    exact h
  · obtain ⟨u, hu, hData, -, hTable⟩ := exists_of_findTable hFound
    unfold insert at hInsert
    split at hInsert
    · cases hInsert
    · obtain ⟨row, hState⟩ := exists_of_insertComplete hInsert
      rw [hState, (StoredTable.names_of_table hTable).1]
      exact h.of_dataRow hNamed hu hData row

/-- A step adds the row that it has written, if it has written one. -/
theorem of_step {succeeded : Bool} (h : db.Holds rs) (hNamed : db.WellNamed)
    (hStep : db.Step op succeeded db') :
    db'.Holds (rs ++ (if succeeded then op.helperRow? else none).toList) := by
  cases hStep with
  | failed => simpa using h
  | halfway hRow hMade => simpa using h.of_ensureHelper hMade
  | done hDone =>
      cases hRow : op.helperRow? with
      | some w =>
          rw [carryOut_of_helperRow hRow] at hDone
          exact h.of_writeHelper hNamed hRow hDone
      | none =>
          simp only [if_true, Option.toList_none, List.append_nil]
          cases op with
          | define t => exact h.of_define hDone
          | handle limits stamp now message =>
              obtain ⟨o, -, rfl⟩ := Traversal.map_eq_ok_iff.mp hDone
              exact h.of_handle hNamed limits stamp now message
          | addShortcut stamp id s => cases hRow
          | grant stamp id phone password => cases hRow

end Holds

/-- **Helper tables hold what was written.**  After any history they hold the rows of the
operations that succeeded, in their order. -/
theorem History.holds (h : Database.empty.History log db) : db.Holds (Log.helperRows log) := by
  induction h with
  | start => exact Holds.empty
  | step h hStep ih =>
      rw [Log.helperRows_append]
      exact ih.of_step h.wellNamed hStep

end Database

end TableTalk
