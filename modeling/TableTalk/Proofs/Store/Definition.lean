import TableTalk.Proofs.Store.Relations

/-!
# Definition registers a table

A table that was defined is found under its display name, and what is found is the table as it
was defined: its id, its columns in their order with all that was told about them, and
its access table.  This stays so whatever is done afterwards.  A definition that fails leaves
no trace, whatever has been written before the failure: every table is found as before, and
shortcuts, credentials and selections are the same
(`Database.definition_registers`).
-/

namespace TableTalk

namespace Database

variable {db db' : Database} {log : Log} {t : Table}

/-- Two databases answer every question alike. -/
structure SameAnswers (db db' : Database) : Prop where
  findTable : ∀ displayName, db'.findTable displayName = db.findTable displayName
  shortcuts : db'.shortcuts = db.shortcuts
  hasCredential : ∀ id phone password,
    db'.hasCredential id phone password = db.hasCredential id phone password
  select : ∀ table query columns,
    db'.select table query columns = db.select table query columns

theorem SameAnswers.refl (db : Database) : db.SameAnswers db :=
  ⟨fun _ => rfl, rfl, fun _ _ _ => rfl, fun _ _ _ => rfl⟩

/-- A definition that succeeds leaves what it defines, and one that fails leaves everything. -/
theorem cases_of_step_define {succeeded : Bool} (h : db.Step (.define t) succeeded db') :
    (succeeded = true ∧ db.define t = .ok db') ∨ (succeeded = false ∧ db' = db) := by
  cases h with
  | done hDone => exact Or.inl ⟨rfl, hDone⟩
  | failed => exact Or.inr ⟨rfl, rfl⟩
  | halfway hRow hMade => cases hRow

/-- A table that was defined is found as it was defined, whatever came afterwards. -/
theorem findTable_of_define (hDefine : db.define t = .ok db') {later : Database}
    (hLater : db'.History log later) : later.findTable t.displayName = .ok (some t) := by
  have ht := (of_define hDefine).1
  obtain ⟨rows, hLast⟩ := hLater.exists_registers ht (registers_of_define hDefine)
  have hFound := hLast.findTable
  rw [StoredTable.table_ofTable] at hFound
  exact hFound

/-- **Definition registers a table**, after any history of operations.  If it succeeds, the
table is found under its display name just as it was defined, after any further operations
and in the relations as well.  If it fails, the relations are put back and every question is
answered as before. -/
theorem definition_registers (h : empty.History log db) (t : Table) :
    (∀ db', db.define t = .ok db' → ∀ log' later, db'.History log' later →
      later.findTable t.displayName = .ok (some t) ∧
        later.relations.findTable t.displayName = .ok (some t)) ∧
    (Relations.define t db.relations =
      match db.define t with
      | .ok db' => (.ok (), db'.relations)
      | .error e => (.error e, db.relations)) ∧
    ∀ succeeded db', db.Step (.define t) succeeded db' →
      if succeeded then db.define t = .ok db' else db.SameAnswers db' := by
  refine ⟨?_, ?_, ?_⟩
  · intro db' hDefine log' later hLater
    have hFound := findTable_of_define hDefine hLater
    have hNamed := (h.wellNamed.of_define hDefine).of_history hLater
    exact ⟨hFound, (Relations.findTable_relations hNamed _).trans hFound⟩
  · rw [Relations.define_relations, perform_eq]
    change ((db.define t).map _, ((db.written (db.define t)).2).relations) = _
    cases db.define t <;> rfl
  · intro succeeded db' hStep
    rcases cases_of_step_define hStep with ⟨rfl, hDefine⟩ | ⟨rfl, rfl⟩
    · exact hDefine
    · exact SameAnswers.refl _

/-- A table of rooms, whose second column has options with quotes and line breaks. -/
def inn : Table :=
  ⟨"inn".toList, "Old Inn".toList,
    [{ storageName := ['g'], displayName := "Guest".toList, type := .text },
      { storageName := ['r'], displayName := ['R'], replyName := some "room".toList,
        type := .multipleChoice, writable := false,
        options := ["the \"Oak\"".toList, "a\nb".toList] }], some "door".toList⟩

def innDb : Database :=
  ⟨[.ofTable inn []]⟩

theorem define_inn : empty.define inn = .ok innDb := by
  rfl

/-- A table that takes the name of the inn. -/
def secondInn : Table :=
  ⟨"inn2".toList, "Old Inn".toList, [{ storageName := ['g'], displayName := ['G'], type := .text }],
    none⟩

/-- A table whose columns differ in the case of letters only. -/
def barn : Table :=
  ⟨"barn".toList, "Barn".toList,
    [{ storageName := ['b'], displayName := ['B'], type := .text },
      { storageName := ['B'], displayName := ['C'], type := .text }], none⟩

def innGrant : Operation :=
  .grant (.midnight ⟨2025, 1, 4, by decide⟩) "door".toList ['7'] ['a']

/-- The inn is found whole after a grant for its door.  A second inn is refused with its first
row, and the barn when its rows have been written already; neither leaves a trace. -/
theorem definition_registers_inn :
    empty.History [(.define inn, true)] innDb ∧
      (innDb.perform innGrant).findTable "Old Inn".toList = .ok (some inn) ∧
      Relations.define secondInn innDb.relations =
        (reject (.notUnique "_tables.kind, _tables.display_name".toList), innDb.relations) ∧
      Relations.define barn innDb.relations =
        (reject (.duplicateColumn ['B']), innDb.relations) := by
  have hInn : empty.History [(.define inn, true)] innDb := History.start.step (.done define_inn)
  have hLater : innDb.History _ (innDb.perform innGrant) :=
    History.start.step (step_perform innDb innGrant)
  have hSecond : innDb.define secondInn =
      reject (.notUnique "_tables.kind, _tables.display_name".toList) := by
    rfl
  have hBarn : innDb.define barn = reject (.duplicateColumn ['B']) := by
    rfl
  refine ⟨hInn, ?_, ?_, ?_⟩
  · exact ((definition_registers History.start inn).1 innDb define_inn _ _ hLater).1
  · rw [(definition_registers hInn secondInn).2.1, hSecond]
    rfl
  · rw [(definition_registers hInn barn).2.1, hBarn]
    rfl

end Database

end TableTalk
