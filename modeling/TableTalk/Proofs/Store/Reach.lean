import TableTalk.Proofs.Store.Operations

/-!
# Databases that can be reached

A database is reached from another by its operations and by rows that are written into its
tables in any other way, finished or not (`Database.Reaches`).

* A data table that was registered stays so, with some rows (`Reaches.exists_registers`).
* In a database that is reached from the empty one every data table is registered, as some
  table that could be defined (`sound_of_reaches`).
-/

namespace TableTalk.Database

/-- The database is reached from a given one. -/
inductive Reaches (start : Database) : Database → Prop
  | refl : Reaches start start
  | perform {db : Database} (h : Reaches start db) (op : Operation) : Reaches start (db.perform op)
  /-- A row of any cells, finished or not -/
  | append {db db' : Database} {name : Text} {cells : List CellWrite} (h : Reaches start db)
      (hWrite : db.append name cells = .ok db') : Reaches start db'

/-- Every data table is registered, as a table that could be defined. -/
def Sound (db : Database) : Prop :=
  ∀ s ∈ db.tables, s.kind = .data →
    ∃ t rows, t.IsDefinable ∧ s = .ofTable t rows ∧ db.Registers s

variable {start db db' : Database} {t : Table} {s : StoredTable} {rows : List StoredRow}

/-- A direct insertion is a row of some cells. -/
theorem Reaches.insert {stamp : Instant} {table : Table} {values : RowValues} {sender : Text}
    (h : start.Reaches db) (hInsert : db.insert stamp table values sender = .ok db') :
    start.Reaches db' := by
  unfold Database.insert at hInsert
  split at hInsert
  · cases hInsert
  · unfold insertComplete at hInsert
    split at hInsert
    · cases hInsert
    · exact h.append hInsert

/-! ### One registered table -/

/-- A row that is written anywhere leaves a registered table registered. -/
theorem Registers.exists_of_update (h : db.Registers (.ofTable t rows)) (name : Text)
    (row : StoredRow) :
    ∃ rows', (db.update name fun u => { u with rows := u.rows ++ [row] }).Registers
      (.ofTable t rows') := by
  have hUpdate := h.update name (· ++ [row])
  split at hUpdate
  · exact ⟨rows ++ [row], hUpdate⟩
  · exact ⟨rows, hUpdate⟩

theorem Reaches.exists_registers (ht : t.IsDefinable) (h : start.Registers (.ofTable t rows))
    (hReaches : start.Reaches db) : ∃ rows', db.Registers (.ofTable t rows') := by
  induction hReaches with
  | refl => exact ⟨rows, h⟩
  | perform _ op ih =>
      obtain ⟨rows', hRegistered⟩ := ih
      exact ⟨_, hRegistered.perform ht op⟩
  | append _ hWrite ih =>
      obtain ⟨rows', hRegistered⟩ := ih
      obtain ⟨row, rfl⟩ := exists_of_append hWrite
      exact hRegistered.exists_of_update _ row

/-! ### All data tables -/

theorem sound_empty : empty.Sound := fun _ hs => absurd hs List.not_mem_nil

theorem Sound.of_define (h : db.Sound) (hDefine : db.define t = .ok db') : db'.Sound := by
  have hNew := registers_of_define hDefine
  intro s hs hKind
  obtain ⟨ht, -, -, hTables⟩ := Database.of_define hDefine
  -- The names of the new table were free, so that the older ones stay registered beside it.
  rw [hTables] at hs
  rcases List.mem_append.mp hs with hs | hs
  · obtain ⟨t', rows, ht', hForm, hRegistered⟩ := h s hs hKind
    exact ⟨t', rows, ht', hForm, hRegistered.of_define hDefine⟩
  · obtain rfl := List.mem_singleton.mp hs
    exact ⟨t, [], ht, rfl, hNew⟩

theorem Sound.of_ensureHelper {id : Text} {kind : TableKind} {columns : List Text}
    (h : db.Sound) (hEnsure : db.ensureHelper id kind columns = .ok db') (hKind : kind ≠ .data) :
    db'.Sound := by
  intro s hs hData
  have hTables : s ∈ db.tables ∨ s = newHelper id kind columns := by
    obtain ⟨-, ⟨rfl, -⟩ | ⟨-, -, rfl⟩⟩ := cases_of_ensureHelper hEnsure
    · exact Or.inl hs
    · exact (List.mem_append.mp hs).imp_right List.mem_singleton.mp
  rcases hTables with hs | rfl
  · obtain ⟨t, rows, ht, hForm, hRegistered⟩ := h s hs hData
    exact ⟨t, rows, ht, hForm, hRegistered.of_ensureHelper hEnsure hKind⟩
  · exact absurd hData hKind

theorem Sound.update (h : db.Sound) (name : Text) (change : List StoredRow → List StoredRow) :
    (db.update name fun u => { u with rows := change u.rows }).Sound := by
  intro s' hs' hKind
  obtain ⟨s, hs, rfl⟩ := List.mem_map.mp hs'
  have hData : s.kind = .data := by
    rw [← hKind]
    dsimp only
    split <;> rfl
  obtain ⟨t, rows, ht, rfl, hRegistered⟩ := h s hs hData
  have hUpdate := hRegistered.update name change
  split
  · rename_i hName
    rw [if_pos hName] at hUpdate
    exact ⟨t, change rows, ht, rfl, hUpdate⟩
  · rename_i hName
    rw [if_neg hName] at hUpdate
    exact ⟨t, rows, ht, rfl, hUpdate⟩

theorem Sound.of_append {name : Text} {cells : List CellWrite} (h : db.Sound)
    (hWrite : db.append name cells = .ok db') : db'.Sound := by
  obtain ⟨row, rfl⟩ := exists_of_append hWrite
  exact h.update name (· ++ [row])

theorem Sound.of_insertComplete {stamp : Instant} {id phone : Text}
    {values : List (Text × Text)} (h : db.Sound)
    (hInsert : db.insertComplete stamp id values phone = .ok db') : db'.Sound := by
  obtain ⟨row, rfl⟩ := exists_of_insertComplete hInsert
  exact h.update id (· ++ [row])

/-- Operations keep every data table registered. -/
theorem Sound.perform (h : db.Sound) (op : Operation) : (db.perform op).Sound :=
  perform_invariant Sound.of_define Sound.of_ensureHelper Sound.of_insertComplete h op

/-- **Every data table is registered** in a database that is reached from the empty one. -/
theorem sound_of_reaches (h : empty.Reaches db) : db.Sound := by
  induction h with
  | refl => exact sound_empty
  | perform _ op ih => exact ih.perform op
  | append _ hWrite ih => exact ih.of_append hWrite

end TableTalk.Database
