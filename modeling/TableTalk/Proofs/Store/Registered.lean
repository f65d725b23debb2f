import TableTalk.Store.Read
import TableTalk.Store.Write
import TableTalk.Proofs.Traversal

/-!
# Registered tables

A registered table goes by two names: its id, which statements use up to the case of
letters, and its display name, which messages use exactly and among data tables only.
`Database.Registers` says that a data table is in the database and that no other table
goes by either name, so that both lead to it.

* Definition registers a table (`registers_of_define`).  What it checks of the table
  itself is `Table.IsDefinable`.
* A registered table stays registered while other tables are added
  (`Registers.of_append`) and while rows are written anywhere (`Registers.update`).
* The description that is read back is the one that was defined (`StoredTable.table_ofTable`).
-/

namespace TableTalk

/-! ### Names up to case -/

namespace Text

theorem sameLetters_iff {a b : Text} : sameLetters a b = true ↔ lower a = lower b :=
  beq_iff_eq

theorem sameLetters_self (a : Text) : sameLetters a a = true :=
  sameLetters_iff.mpr rfl

theorem sameLetters_comm (a b : Text) : sameLetters a b = sameLetters b a :=
  Bool.eq_iff_iff.mpr (by rw [sameLetters_iff, sameLetters_iff, eq_comm])

end Text

/-- Statements can name the table and each of its columns, apart from each other and from
the bookkeeping columns. -/
structure Table.IsDefinable (t : Table) : Prop where
  id_isName : Statement.isName t.id = true
  isName : ∀ c ∈ t.columns, Statement.isName c.storageName = true
  /-- An underscore opens the names of bookkeeping columns only -/
  unreserved : ∀ c ∈ t.columns, ∀ rest, c.storageName ≠ '_' :: rest
  /-- Also up to the case of letters -/
  distinct : (t.columns.map Column.storageName).Pairwise fun a b => Text.sameLetters a b = false

/-! ### Descriptions -/

/-- The description of a column is read back as it was. -/
theorem StoredColumn.column_describe (n : Nat) (c : Column) :
    (Database.describe n c).column = .ok c := by
  unfold column Database.describe
  simp

theorem Database.mapM_describeFrom (n : Nat) (columns : List Column) :
    (describeFrom n columns).mapM StoredColumn.column = .ok columns := by
  induction columns generalizing n with
  | nil => rfl
  | cons c rest ih =>
      exact Traversal.mapM_cons_ok.mpr
        ⟨c, rest, StoredColumn.column_describe n c, ih (n + 1), rfl⟩

theorem Database.le_position_of_mem_describeFrom {n : Nat} {columns : List Column}
    {d : StoredColumn} (h : d ∈ describeFrom n columns) : (n : Int) ≤ d.position := by
  induction columns generalizing n with
  | nil => exact absurd h List.not_mem_nil
  | cons c rest ih =>
      rcases List.mem_cons.mp h with rfl | h
      · exact Int.le_refl _
      · have hLater := ih h
        omega

theorem Database.pairwise_describeFrom (n : Nat) (columns : List Column) :
    (describeFrom n columns).Pairwise fun a b => a.position ≤ b.position := by
  induction columns generalizing n with
  | nil => exact List.Pairwise.nil
  | cons c rest ih =>
      refine List.pairwise_cons.mpr ⟨fun d hd => ?_, ih (n + 1)⟩
      have hLater := le_position_of_mem_describeFrom hd
      have hFirst : (describe n c).position = (n : Int) := rfl
      omega

namespace StoredTable

/-- The stored form of a table that holds some rows. -/
def ofTable (t : Table) (rows : List StoredRow) : StoredTable :=
  { Database.newTable t with rows := rows }

@[simp]
theorem ofTable_id (t : Table) (rows : List StoredRow) : (ofTable t rows).id = t.id := rfl

@[simp]
theorem ofTable_displayName (t : Table) (rows : List StoredRow) :
    (ofTable t rows).displayName = t.displayName := rfl

/-- A table is described as it was defined, whatever rows it holds. -/
theorem table_ofTable (t : Table) (rows : List StoredRow) : (ofTable t rows).table = .ok t := by
  have hSorted : ((Database.describeFrom 0 t.columns).mergeSort
      fun a b => a.position ≤ b.position) = Database.describeFrom 0 t.columns := by
    refine List.mergeSort_of_pairwise ?_
    simpa using Database.pairwise_describeFrom 0 t.columns
  unfold StoredTable.table ofTable Database.newTable
  simp only [hSorted, Database.mapM_describeFrom]

/-- A table is read under its own names. -/
theorem names_of_table {u : StoredTable} {t : Table} (h : u.table = .ok t) :
    t.id = u.id ∧ t.displayName = u.displayName := by
  unfold StoredTable.table at h
  split at h
  · cases h
  · rw [← Except.ok.inj h]
    exact ⟨rfl, rfl⟩

end StoredTable

namespace Database

variable {db db' : Database} {s u : StoredTable} {t : Table} {name : Text}

/-! ### The two names of a table -/

/-- The data table is stored, and neither its id nor its display name leads to another. -/
structure Registers (db : Database) (s : StoredTable) : Prop where
  mem : s ∈ db.tables
  isData : s.kind = .data
  /-- Ids are compared up to the case of letters -/
  id_unique : ∀ u ∈ db.tables, Text.sameLetters u.id s.id = true → u = s
  /-- Display names are compared exactly, among data tables -/
  displayName_unique : ∀ u ∈ db.tables, u.kind = .data → u.displayName = s.displayName → u = s

theorem Registers.named (h : db.Registers s) : db.named s.id = some s :=
  Traversal.find?_eq_some_of_unique h.mem (Text.sameLetters_self s.id) h.id_unique

theorem Registers.findTable (h : db.Registers s) :
    db.findTable s.displayName = s.table.map some := by
  have hFound : (db.tables.find? fun u => u.kind == .data && u.displayName == s.displayName) =
      some s := by
    refine Traversal.find?_eq_some_of_unique h.mem (by simp [h.isData]) fun u hu hName => ?_
    simp only [Bool.and_eq_true, beq_iff_eq] at hName
    exact h.displayName_unique u hu hName.1 hName.2
  unfold Database.findTable
  rw [hFound]

/-- A table that is found in a database is stored there as a data table of that name. -/
theorem exists_of_findTable (h : db.findTable name = .ok (some t)) :
    ∃ u ∈ db.tables, u.kind = .data ∧ u.displayName = name ∧ u.table = .ok t := by
  unfold Database.findTable at h
  split at h
  · cases h
  · rename_i u hFound
    have hu := List.find?_some hFound
    simp only [Bool.and_eq_true, beq_iff_eq] at hu
    refine ⟨u, List.mem_of_find?_eq_some hFound, hu.1, hu.2, ?_⟩
    cases hTable : u.table with
    | error e =>
        rw [hTable] at h
        cases h
    | ok t' =>
        rw [hTable] at h
        obtain rfl : t' = t := Option.some.inj (Except.ok.inj h)
        rfl

/-! ### What changes around a registered table -/

/-- Another table is added. -/
theorem Registers.of_append (h : db.Registers s)
    (hId : Text.sameLetters u.id s.id = false)
    (hName : u.kind = .data → u.displayName ≠ s.displayName) :
    Registers { db with tables := db.tables ++ [u] } s where
  mem := List.mem_append_left _ h.mem
  isData := h.isData
  id_unique v hv hSame := by
    rcases List.mem_append.mp hv with hv | hv
    · exact h.id_unique v hv hSame
    · rw [List.mem_singleton.mp hv, hId] at hSame
      cases hSame
  displayName_unique v hv hKind hSame := by
    rcases List.mem_append.mp hv with hv | hv
    · exact h.displayName_unique v hv hKind hSame
    · obtain rfl := List.mem_singleton.mp hv
      exact absurd hSame (hName hKind)

/-- A change of rows, wherever it is made, is a change of the registered table or none. -/
theorem Registers.update (h : db.Registers s) (name : Text)
    (change : List StoredRow → List StoredRow) :
    (db.update name fun u => { u with rows := change u.rows }).Registers
      (if Text.sameLetters s.id name then { s with rows := change s.rows } else s) := by
  -- Which rows change is decided by the id, but no name ever does.
  have hEach : ∀ u : StoredTable,
      (if Text.sameLetters u.id name then { u with rows := change u.rows } else u) =
        { u with rows := if Text.sameLetters u.id name then change u.rows else u.rows } := by
    intro u
    split <;> rfl
  unfold Database.update
  simp only [hEach]
  refine ⟨List.mem_map.mpr ⟨s, h.mem, rfl⟩, h.isData, ?_, ?_⟩
  · intro v hv hSame
    obtain ⟨u, hu, rfl⟩ := List.mem_map.mp hv
    rw [h.id_unique u hu hSame]
  · intro v hv hKind hSame
    obtain ⟨u, hu, rfl⟩ := List.mem_map.mp hv
    rw [h.displayName_unique u hu hKind hSame]

/-- A row is written into the registered table. -/
theorem Registers.appendRow {rows : List StoredRow} (h : db.Registers (.ofTable t rows))
    (row : StoredRow) :
    (db.update t.id fun u => { u with rows := u.rows ++ [row] }).Registers
      (.ofTable t (rows ++ [row])) := by
  have hUpdate := h.update t.id (· ++ [row])
  rwa [StoredTable.ofTable_id, if_pos (Text.sameLetters_self t.id)] at hUpdate

/-! ### Checks before a table is added -/

theorem of_repeatedName {seen names : List Text} (h : repeatedName seen names = none) :
    names.Pairwise (fun a b => Text.sameLetters a b = false) ∧
      ∀ a ∈ seen, ∀ b ∈ names, Text.sameLetters a b = false := by
  induction names generalizing seen with
  | nil => exact ⟨List.Pairwise.nil, fun _ _ _ hb => absurd hb List.not_mem_nil⟩
  | cons name rest ih =>
      rw [repeatedName] at h
      split at h
      · cases h
      · rename_i hNew
        have hSeen : ∀ a ∈ seen, Text.sameLetters a name = false := by
          simpa using hNew
        obtain ⟨hRest, hApart⟩ := ih h
        refine ⟨List.pairwise_cons.mpr ⟨hApart name List.mem_cons_self, hRest⟩, ?_⟩
        intro a ha b hb
        rcases List.mem_cons.mp hb with rfl | hb
        · exact hSeen a ha
        · exact hApart a (List.mem_cons_of_mem _ ha) b hb

theorem of_checkCreate {id : Text} {columns written : List Text}
    (h : db.checkCreate id columns written = .ok ()) :
    (∀ u ∈ db.tables, Text.sameLetters u.id id = false) ∧
      columns.Pairwise fun a b => Text.sameLetters a b = false := by
  unfold checkCreate at h
  split at h
  · cases h
  split at h
  · cases h
  rename_i hTables
  split at h
  · cases h
  split at h
  · cases h
  rename_i hColumns
  refine ⟨fun u hu => ?_, (of_repeatedName hColumns).1⟩
  -- The check is over the database's own tables too; only the registered ones matter here.
  rw [List.any_eq_true] at hTables
  rw [Bool.eq_false_iff]
  exact fun hSame => hTables ⟨u.id, List.mem_append_right _ (List.mem_map_of_mem hu), hSame⟩

theorem of_checkRegister {id displayName : Text} {kind : TableKind}
    (h : db.checkRegister id displayName kind = .ok ()) :
    ∀ u ∈ db.tables, u.kind = kind → u.displayName ≠ displayName := by
  unfold checkRegister at h
  split at h
  · cases h
  · rename_i hNames
    intro u hu hKind hSame
    refine hNames (List.any_eq_true.mpr ⟨u, hu, ?_⟩)
    simp [hKind, hSame]

/-! ### Definition -/

theorem of_checkColumn {c : Column} (h : checkColumn c = .ok ()) :
    (∀ rest, c.storageName ≠ '_' :: rest) ∧ Statement.isName c.storageName = true := by
  unfold checkColumn at h
  split at h
  · cases h
  · rename_i hUnreserved
    split at h
    · cases h
    · split at h
      · rename_i hName
        exact ⟨hUnreserved, hName⟩
      · cases h

theorem of_checkColumns {columns : List Column} (h : checkColumns columns = .ok ()) :
    ∀ c ∈ columns, checkColumn c = .ok () := by
  induction columns with
  | nil => exact fun _ hc => absurd hc List.not_mem_nil
  | cons c rest ih =>
      rw [checkColumns] at h
      split at h
      · cases h
      · rename_i hFirst
        intro d hd
        rcases List.mem_cons.mp hd with rfl | hd
        · exact hFirst
        · exact ih h d hd

/-- What a definition checks, and what it leaves. -/
theorem of_define (h : db.define t = .ok db') :
    t.IsDefinable ∧ (∀ u ∈ db.tables, Text.sameLetters u.id t.id = false) ∧
      (∀ u ∈ db.tables, u.kind = .data → u.displayName ≠ t.displayName) ∧
      db' = { db with tables := db.tables ++ [newTable t] } := by
  -- A check that fails ends the definition, whatever was to come after it.
  have hRefused : ∀ (issue : DefinitionIssue) (next : Unit → Except Failure Database),
      (refuse issue >>= next) ≠ .ok db' := fun _ _ h => by cases h
  have hRejected : ∀ (issue : DatabaseIssue) (next : Unit → Except Failure Database),
      (reject issue >>= next) ≠ .ok db' := fun _ _ h => by cases h
  unfold define at h
  dsimp only at h
  split at h
  · exact absurd h (hRefused _ _)
  rename_i hId
  split at h
  · exact absurd h (hRefused _ _)
  obtain ⟨⟨⟩, hColumns, h⟩ := Traversal.bind_eq_ok_iff.mp h
  obtain ⟨⟨⟩, hRegister, h⟩ := Traversal.bind_eq_ok_iff.mp h
  split at h
  · exact absurd h (hRejected _ _)
  obtain ⟨⟨⟩, hCreate, h⟩ := Traversal.bind_eq_ok_iff.mp h
  obtain ⟨hIds, hDistinct⟩ := of_checkCreate hCreate
  have hEach := fun c hc => of_checkColumn (of_checkColumns hColumns c hc)
  refine ⟨⟨by simpa using hId, fun c hc => (hEach c hc).2, fun c hc => (hEach c hc).1, hDistinct⟩,
    hIds, of_checkRegister hRegister, (Except.ok.inj h).symm⟩

/-- A definition registers its table, without rows. -/
theorem registers_of_define (h : db.define t = .ok db') : db'.Registers (.ofTable t []) := by
  obtain ⟨-, hIds, hNames, rfl⟩ := of_define h
  refine ⟨List.mem_append_right _ List.mem_cons_self, rfl, ?_, ?_⟩
  · intro u hu hSame
    rcases List.mem_append.mp hu with hu | hu
    · have hOther := hIds u hu
      exact absurd (hOther.symm.trans hSame) Bool.false_ne_true
    · exact List.mem_singleton.mp hu
  · intro u hu hKind hSame
    rcases List.mem_append.mp hu with hu | hu
    · exact absurd hSame (hNames u hu hKind)
    · exact List.mem_singleton.mp hu

/-- A further definition leaves a registered table alone. -/
theorem Registers.of_define (h : db.Registers s) (hDefine : db.define t = .ok db') :
    db'.Registers s := by
  obtain ⟨-, hIds, hNames, rfl⟩ := Database.of_define hDefine
  refine h.of_append ?_ fun hKind hSame => hNames s h.mem h.isData hSame.symm
  rw [Text.sameLetters_comm]
  exact hIds s h.mem

/-- What asking for a helper table does: there was one of this id and kind, or one is made
whose id no other table has. -/
theorem cases_of_ensureHelper {id : Text} {kind : TableKind} {columns : List Text}
    (h : db.ensureHelper id kind columns = .ok db') :
    Statement.isName id = true ∧
      ((db' = db ∧ ∃ u ∈ db.tables, u.id = id ∧ u.kind = kind) ∨
        (db.withId id = none ∧ (∀ u ∈ db.tables, Text.sameLetters u.id id = false) ∧
          db' = { db with tables := db.tables ++ [newHelper id kind columns] })) := by
  unfold ensureHelper at h
  split at h
  · cases h
  rename_i hName
  refine ⟨by simpa using hName, ?_⟩
  split at h
  · rename_i u hFound
    split at h
    · rename_i hKind
      exact Or.inl ⟨(Except.ok.inj h).symm, u, List.mem_of_find?_eq_some hFound,
        beq_iff_eq.mp (List.find?_some hFound :), hKind⟩
    · cases h
  · rename_i hNone
    split at h
    · cases h
    split at h
    · cases h
    rename_i hCreate
    exact Or.inr ⟨hNone, (of_checkCreate hCreate).1, (Except.ok.inj h).symm⟩

/-- A helper table that was asked for exists. -/
theorem exists_of_ensureHelper {id : Text} {kind : TableKind} {columns : List Text}
    (h : db.ensureHelper id kind columns = .ok db') :
    ∃ u ∈ db'.tables, u.id = id ∧ u.kind = kind := by
  obtain ⟨-, ⟨rfl, hExists⟩ | ⟨-, -, rfl⟩⟩ := cases_of_ensureHelper h
  · exact hExists
  · exact ⟨_, List.mem_append_right _ List.mem_cons_self, rfl, rfl⟩

/-- The creation of a helper table leaves a registered table alone. -/
theorem Registers.of_ensureHelper {id : Text} {kind : TableKind} {columns : List Text}
    (h : db.Registers s) (hEnsure : db.ensureHelper id kind columns = .ok db')
    (hKind : kind ≠ .data) : db'.Registers s := by
  obtain ⟨-, ⟨rfl, -⟩ | ⟨-, hIds, rfl⟩⟩ := cases_of_ensureHelper hEnsure
  · exact h
  · refine h.of_append ?_ fun hData => absurd hData hKind
    rw [Text.sameLetters_comm]
    exact hIds s h.mem

end Database

end TableTalk
