import TableTalk.Proofs.Store.History
import TableTalk.Proofs.Text.JsonTexts

/-!
# A database in relations

What is registered is kept in two relations: one has a row for each table, the other a row for
each column, with its options as a JSON text and its mark as a number.  Beside them
stand the tables that were created, by their names.  This is what definition works on, piece by
piece: it adds the row of the table, adds those of its columns one after another, and
creates the table.  Each piece may be refused when others have been done already, so all of
them are one transaction.

* Looking for a table in the relations, where the columns are ordered by their positions and
  each is read from its row, finds what looking for it in the database finds
  (`Relations.findTable_relations`).
* Definition in the relations is definition in the database: it succeeds in the same cases,
  fails with the same failure, and leaves the relations of the same database
  (`Relations.define_relations`).
-/

namespace TableTalk

/-- A row of the relation of tables. -/
structure TableRow where
  id : Text
  displayName : Text
  kind : Text
  accessTable : Option Text
deriving DecidableEq

/-- A row of the relation of columns. -/
structure ColumnRow where
  /-- Id of the table -/
  table : Text
  position : Int
  storageName : Text
  displayName : Text
  replyName : Option Text
  typeName : Text
  /-- 0 if messages may not write the column; `none` if it is no number -/
  writable : Option Int
  /-- Options as a JSON list -/
  options : Text
deriving DecidableEq

/-- A table that was created, with its columns besides bookkeeping. -/
structure CreatedTable where
  name : Text
  columns : List Text
  rows : List StoredRow
deriving DecidableEq

/-- Two relations and the tables that were created. -/
structure Relations where
  tables : List TableRow
  columns : List ColumnRow
  created : List CreatedTable
deriving DecidableEq

/-- The row of a column.  An empty text stands for options that cannot be read. -/
def StoredColumn.row (table : Text) (c : StoredColumn) : ColumnRow where
  table := table
  position := c.position
  storageName := c.storageName
  displayName := c.displayName
  replyName := c.replyName
  typeName := c.typeName
  writable := c.writable.map fun mark => if mark then 1 else 0
  options := (c.options.map Json.writeTexts).getD []

namespace StoredTable

def row (t : StoredTable) : TableRow :=
  ⟨t.id, t.displayName, t.kind.name, t.accessTable⟩

def columnRows (t : StoredTable) : List ColumnRow :=
  t.described.map (StoredColumn.row t.id)

def created (t : StoredTable) : CreatedTable :=
  ⟨t.id, t.columns, t.rows⟩

end StoredTable

/-- A database in relations. -/
def Database.relations (db : Database) : Relations :=
  ⟨db.tables.map StoredTable.row, db.tables.flatMap StoredTable.columnRows,
    db.tables.map StoredTable.created⟩

namespace Relations

/-! ### Looking for a table -/

/-- Read a column from its row. -/
def column (c : ColumnRow) : Except Failure Column :=
  match c.writable with
  | none => .error (.database .wrongType none)
  | some mark =>
      match ColumnType.ofName? c.typeName with
      | none => .error (.definition (.unknownColumnType c.typeName))
      | some type =>
          match (Json.read c.options).bind Json.texts? with
          | none => .error .serialization
          | some options =>
              .ok ⟨c.storageName, c.displayName, c.replyName, type, mark != 0, options⟩

/-- The data table with a display name. -/
def findTable (r : Relations) (displayName : Text) : Except Failure (Option Table) :=
  match r.tables.find? fun x => x.kind == TableKind.data.name && x.displayName == displayName with
  | none => .ok none
  | some row =>
      match ((r.columns.filter fun c => c.table == row.id).mergeSort
          fun a b => a.position ≤ b.position).mapM column with
      | .error e => .error e
      | .ok columns => .ok (some ⟨row.id, row.displayName, columns, row.accessTable⟩)

/-! ### Work that may fail on the way -/

/-- Work on relations.  If it fails it leaves what was done before. -/
abbrev Work := Relations → Except Failure Unit × Relations

namespace Work

def done : Work := fun r => (.ok (), r)

/-- Go on with the next piece of work, unless the first has failed. -/
def andThen (first next : Work) : Work := fun r =>
  match first r with
  | (.ok (), r') => next r'
  | (.error e, r') => (.error e, r')

/-- Work in a transaction: if it fails, nothing of it was done. -/
def atomically (work : Work) : Work := fun r =>
  match work r with
  | (.ok (), r') => (.ok (), r')
  | (.error e, _) => (.error e, r)

section

variable {first next work : Work} {r r' : Relations} {e : Failure}

theorem andThen_of_ok (h : first r = (.ok (), r')) : first.andThen next r = next r' := by
  unfold andThen
  rw [h]

theorem andThen_of_error (h : (first r).1 = .error e) : (first.andThen next r).1 = .error e := by
  unfold andThen
  split
  · rename_i hFirst
    rw [hFirst] at h
    cases h
  · rename_i hFirst
    rw [hFirst] at h
    exact h

theorem atomically_of_ok (h : work r = (.ok (), r')) : work.atomically r = (.ok (), r') := by
  unfold atomically
  rw [h]

/-- What was done on the way to a failure is not there any more. -/
theorem atomically_of_error (h : (work r).1 = .error e) : work.atomically r = (.error e, r) := by
  unfold atomically
  split
  · rename_i hWork
    rw [hWork] at h
    cases h
  · rename_i hWork
    rw [hWork] at h
    rw [Except.error.inj h]

end

end Work

/-- What one statement leaves: the change it makes, or nothing if it is refused. -/
def written (r r' : Relations) : Except Failure Unit → Except Failure Unit × Relations
  | .ok () => (.ok (), r')
  | .error e => (.error e, r)

/-- Add a row for a table.  The id is its key, and display names of a kind differ. -/
def addTable (row : TableRow) : Work := fun r =>
  r.written { r with tables := r.tables ++ [row] }
    (if r.tables.any fun x => x.kind == row.kind && x.displayName == row.displayName then
      Database.reject (.notUnique "_tables.kind, _tables.display_name".toList)
    else if r.tables.any fun x => x.id == row.id then
      Database.reject (.notUnique "_tables.id".toList)
    else .ok ())

/-- Add a row for a column.  Table and storage name are its key. -/
def addColumn (row : ColumnRow) : Work := fun r =>
  r.written { r with columns := r.columns ++ [row] }
    (if r.columns.any fun x => x.table == row.table && x.storageName == row.storageName then
      Database.reject (.notUnique "_columns.table_id, _columns.storage_name".toList)
    else .ok ())

def addColumns : List ColumnRow → Work
  | [] => .done
  | row :: rest => (addColumn row).andThen (addColumns rest)

/-- Create a table.  Names of tables, indexes and columns differ up to the case of letters. -/
def create (name : Text) (columns quoted : List Text) : Work := fun r =>
  r.written { r with created := r.created ++ [⟨name, columns, []⟩] }
    (if (Text.after? Database.reservedStart (Text.lower name)).isSome then
      Database.reject (.reservedName name)
    else if (Database.ownTables ++ r.created.map CreatedTable.name).any
        fun t => Text.sameLetters t name then
      .error (.database (.tableExists name)
        (Statement.place (Statement.createTable name quoted) ('"' :: name ++ ['"'])))
    else if Database.ownIndexes.any fun i => Text.sameLetters i name then
      Database.reject (.indexExists name)
    else
      match Database.repeatedName [] columns with
      | some column => Database.reject (.duplicateColumn column)
      | none => .ok ())

/-- Check a table to be defined, before anything is written. -/
def checkTable (t : Table) : Except Failure Unit :=
  if !Statement.isName t.id then Database.refuse (.invalidIdentifier t.id)
  else if t.columns.isEmpty then Database.refuse (.noColumns t.displayName)
  else Database.checkColumns t.columns

/-- Define a table: the row of the table, those of its columns and the table itself, all
or nothing. -/
def define (t : Table) : Work := fun r =>
  let u := Database.newTable t
  match checkTable t with
  | .error e => (.error e, r)
  | .ok () =>
      ((addTable u.row).andThen ((addColumns u.columnRows).andThen
        (create u.id u.columns (u.columns.map fun n => '"' :: n ++ ['"'])))).atomically r

/-! ### Looking for a table -/

section Looking

variable {db : Database} {u : StoredTable}

theorem kind_name_beq (a b : TableKind) : (a.name == b.name) = (a == b) := by
  cases a <;> cases b <;> decide

theorem texts?_read_options (options : Option (List Text)) :
    (Json.read ((options.map Json.writeTexts).getD [])).bind Json.texts? = options := by
  cases options with
  | none => rfl
  | some ts => exact Json.texts?_read_writeTexts ts

/-- A column is read from its row as it is from its description. -/
theorem column_row (table : Text) (c : StoredColumn) : column (c.row table) = c.column := by
  unfold column StoredColumn.column StoredColumn.row
  simp only [texts?_read_options]
  cases c.writable with
  | none => rfl
  | some mark => cases mark <;> rfl

/-- The rows that are kept for the columns of a table. -/
theorem filter_columns (h : db.WellNamed) (hu : u ∈ db.tables) :
    (db.relations.columns.filter fun c => c.table == u.id) = u.columnRows := by
  have hOwn (v : StoredTable) (c : ColumnRow) (hc : c ∈ v.columnRows) : c.table = v.id := by
    obtain ⟨d, -, rfl⟩ := List.mem_map.mp hc
    rfl
  change (db.tables.flatMap StoredTable.columnRows).filter _ = _
  rw [List.filter_flatMap, Traversal.flatMap_eq_of_unique h.nodup hu]
  · exact List.filter_eq_self.mpr fun c hc => beq_iff_eq.mpr (hOwn u c hc)
  · intro v hv hOther
    refine List.filter_eq_nil_iff.mpr fun c hc hSame => hOther ?_
    exact h.eq_of_id hv hu ((hOwn v c hc).symm.trans (beq_iff_eq.mp hSame))

/-- The columns of a table are read from their rows in the same order. -/
theorem mapM_column_columnRows (u : StoredTable) :
    ((u.columnRows.mergeSort fun a b => a.position ≤ b.position).mapM column) =
      (u.described.mergeSort fun a b => a.position ≤ b.position).mapM StoredColumn.column := by
  have hSorted : (u.columnRows.mergeSort fun a b => a.position ≤ b.position) =
      (u.described.mergeSort fun a b => a.position ≤ b.position).map (StoredColumn.row u.id) := by
    symm
    exact List.map_mergeSort fun _ _ _ _ => rfl
  have hRead : column ∘ StoredColumn.row u.id = StoredColumn.column :=
    funext fun c => column_row u.id c
  rw [hSorted, List.mapM_map, hRead]

/-- **Looking for a table** in the relations of a database is looking for it there. -/
theorem findTable_relations (h : db.WellNamed) (name : Text) :
    db.relations.findTable name = db.findTable name := by
  have hFind : (db.relations.tables.find? fun x =>
      x.kind == TableKind.data.name && x.displayName == name) =
        (db.tables.find? fun t => t.kind == .data && t.displayName == name).map
          StoredTable.row := by
    change (db.tables.map StoredTable.row).find? _ = _
    rw [List.find?_map]
    refine congrArg (Option.map StoredTable.row) (congrArg (List.find? · db.tables) ?_)
    funext u
    exact congrArg (· && u.displayName == name) (kind_name_beq u.kind .data)
  unfold findTable Database.findTable
  rw [hFind]
  cases hFound : db.tables.find? fun t => t.kind == .data && t.displayName == name with
  | none => rfl
  | some u =>
      simp only [Option.map_some]
      have hColumns := filter_columns h (List.mem_of_find?_eq_some hFound)
      change (match ((db.relations.columns.filter fun c => c.table == u.id).mergeSort
        fun a b => a.position ≤ b.position).mapM column with
        | .error e => .error e
        | .ok columns => .ok (some ⟨u.id, u.displayName, columns, u.accessTable⟩) :
          Except Failure (Option Table)) = _
      rw [hColumns, mapM_column_columnRows]
      unfold StoredTable.table
      cases (u.described.mergeSort fun a b => a.position ≤ b.position).mapM
        StoredColumn.column <;> rfl

end Looking

/-! ### Definition -/

section Defining

variable {db : Database} {u : StoredTable} {t : Table} {r : Relations}

/-- The checks of a definition, one after another. -/
theorem define_eq (db : Database) (t : Table) :
    db.define t =
      match checkTable t with
      | .error e => .error e
      | .ok () =>
          match db.checkRegister t.id t.displayName .data with
          | .error e => .error e
          | .ok () =>
              if (t.columns.map Column.storageName).Nodup then
                match db.checkCreate t.id (t.columns.map Column.storageName)
                  ((t.columns.map Column.storageName).map fun n => '"' :: n ++ ['"']) with
                | .error e => .error e
                | .ok () => .ok { db with tables := db.tables ++ [Database.newTable t] }
              else Database.reject
                (.notUnique "_columns.table_id, _columns.storage_name".toList) := by
  unfold Database.define checkTable
  cases Statement.isName t.id with
  | false => rfl
  | true =>
      cases t.columns.isEmpty with
      | true => rfl
      | false =>
          cases Database.checkColumns t.columns with
          | error e => rfl
          | ok _ =>
              cases db.checkRegister t.id t.displayName .data with
              | error e => rfl
              | ok _ =>
                  by_cases hDistinct : (t.columns.map Column.storageName).Nodup
                  · simp only [hDistinct]
                    cases db.checkCreate t.id (t.columns.map Column.storageName)
                      ((t.columns.map Column.storageName).map fun n => '"' :: n ++ ['"']) <;> rfl
                  · simp only [hDistinct]
                    rfl

/-- The relations of a database with the row of another table. -/
def withTable (db : Database) (u : StoredTable) : Relations :=
  { db.relations with tables := db.relations.tables ++ [u.row] }

/-- The same with the rows of its columns. -/
def withColumns (db : Database) (u : StoredTable) : Relations :=
  { withTable db u with columns := db.relations.columns ++ u.columnRows }

/-- The row of a table is added if the table can be registered. -/
theorem addTable_relations (db : Database) (u : StoredTable) :
    addTable u.row db.relations =
      db.relations.written (withTable db u) (db.checkRegister u.id u.displayName u.kind) := by
  have hNames : (db.relations.tables.any fun x =>
      x.kind == u.kind.name && x.displayName == u.displayName) =
        db.tables.any fun x => x.kind == u.kind && x.displayName == u.displayName := by
    change (db.tables.map StoredTable.row).any _ = _
    rw [List.any_map]
    refine congrArg (List.any db.tables) (funext fun x => ?_)
    exact congrArg (· && x.displayName == u.displayName) (kind_name_beq x.kind u.kind)
  have hIds : (db.relations.tables.any fun x => x.id == u.id) = (db.withId u.id).isSome := by
    change (db.tables.map StoredTable.row).any _ = (db.tables.find? _).isSome
    rw [List.any_map, List.isSome_find?]
    rfl
  unfold addTable Database.checkRegister
  rw [← hNames, ← hIds]
  rfl

/-- The table is created if its name and its columns are free. -/
theorem create_withColumns (db : Database) (hRows : u.rows = []) (quoted : List Text) :
    create u.id u.columns quoted (withColumns db u) =
      (withColumns db u).written (Database.relations { db with tables := db.tables ++ [u] })
        (db.checkCreate u.id u.columns quoted) := by
  have hNames : (withColumns db u).created.map CreatedTable.name =
      db.tables.map StoredTable.id := by
    change (db.tables.map StoredTable.created).map _ = _
    rw [List.map_map]
    rfl
  have hCreated : ({ withColumns db u with
      created := (withColumns db u).created ++ [⟨u.id, u.columns, []⟩] } : Relations) =
        Database.relations { db with tables := db.tables ++ [u] } := by
    unfold withColumns withTable Database.relations
    simp [StoredTable.created, hRows]
  unfold create
  rw [hNames, hCreated]
  rfl

/-- Storage names that are kept for a table. -/
def storageNames (r : Relations) (table : Text) : List Text :=
  (r.columns.filter fun c => c.table == table).map ColumnRow.storageName

theorem storageNames_append (r : Relations) (row : ColumnRow) :
    storageNames { r with columns := r.columns ++ [row] } row.table =
      r.storageNames row.table ++ [row.storageName] := by
  unfold storageNames
  rw [List.filter_append, List.map_append]
  simp

theorem addColumn_eq (row : ColumnRow) (r : Relations) :
    addColumn row r =
      if row.storageName ∈ r.storageNames row.table then
        (Database.reject (.notUnique "_columns.table_id, _columns.storage_name".toList), r)
      else (.ok (), { r with columns := r.columns ++ [row] }) := by
  have hTaken : (r.columns.any fun x =>
      x.table == row.table && x.storageName == row.storageName) = true ↔
        row.storageName ∈ r.storageNames row.table := by
    unfold storageNames
    rw [List.any_eq_true, List.mem_map]
    simp only [List.mem_filter, Bool.and_eq_true, beq_iff_eq, and_assoc]
  unfold addColumn
  simp only [hTaken]
  split_ifs <;> rfl

/-- Rows for the columns of a table are added one after another, until a name repeats. -/
theorem addColumns_eq {table : Text} {rows : List ColumnRow} (h : ∀ c ∈ rows, c.table = table)
    (hDistinct : (r.storageNames table).Nodup) :
    ((r.storageNames table ++ rows.map ColumnRow.storageName).Nodup →
      addColumns rows r = (.ok (), { r with columns := r.columns ++ rows })) ∧
    (¬ (r.storageNames table ++ rows.map ColumnRow.storageName).Nodup →
      (addColumns rows r).1 = Database.reject
        (.notUnique "_columns.table_id, _columns.storage_name".toList)) := by
  induction rows generalizing r with
  | nil =>
      rw [List.map_nil, List.append_nil]
      refine ⟨fun _ => ?_, fun hNot => absurd hDistinct hNot⟩
      rw [List.append_nil]
      rfl
  | cons row rest ih =>
      obtain rfl := h row List.mem_cons_self
      have hNext := addColumn_eq row r
      unfold addColumns Work.andThen
      by_cases hTaken : row.storageName ∈ r.storageNames row.table
      · rw [hNext, if_pos hTaken]
        refine ⟨fun hNodup => ?_, fun _ => rfl⟩
        have hApart := (List.nodup_append'.mp hNodup).2.2
        exact absurd List.mem_cons_self (hApart hTaken)
      · rw [hNext, if_neg hTaken]
        have hRest := ih (r := { r with columns := r.columns ++ [row] })
          (fun c hc => h c (List.mem_cons_of_mem _ hc)) ?_
        · rw [storageNames_append, List.append_assoc, List.append_assoc] at hRest
          exact hRest
        · rw [storageNames_append]
          exact List.nodup_append'.mpr ⟨hDistinct, List.nodup_singleton _,
            List.disjoint_singleton.mpr hTaken⟩

theorem map_storageName_columnRows (t : Table) :
    (Database.newTable t).columnRows.map ColumnRow.storageName =
      t.columns.map Column.storageName := by
  have hFrom (n : Nat) (columns : List Column) :
      (Database.describeFrom n columns).map StoredColumn.storageName =
        columns.map Column.storageName := by
    induction columns generalizing n with
    | nil => rfl
    | cons c rest ih => exact congrArg (c.storageName :: ·) (ih (n + 1))
  change ((Database.describeFrom 0 t.columns).map (StoredColumn.row t.id)).map _ = _
  rw [List.map_map]
  exact hFrom 0 t.columns

/-- An id that is not registered has no columns. -/
theorem storageNames_of_free {id : Text} (h : db.withId id = none) :
    db.relations.storageNames id = [] := by
  unfold storageNames
  rw [List.map_eq_nil_iff, List.filter_eq_nil_iff]
  intro c hc hSame
  obtain ⟨v, hv, hc⟩ := List.mem_flatMap.mp hc
  obtain ⟨d, -, rfl⟩ := List.mem_map.mp hc
  exact List.find?_eq_none.mp h v hv hSame

/-- An id is free if a table can be registered under it. -/
theorem withId_of_checkRegister {id displayName : Text} {kind : TableKind}
    (h : db.checkRegister id displayName kind = .ok ()) : db.withId id = none := by
  unfold Database.checkRegister at h
  split at h
  · cases h
  · split at h
    · cases h
    · rename_i hFree
      simpa using hFree

/-- The rows of its columns are added to that of the table, if their names differ. -/
theorem addColumns_withTable (hFree : db.withId t.id = none) :
    ((t.columns.map Column.storageName).Nodup →
      addColumns (Database.newTable t).columnRows (withTable db (Database.newTable t)) =
        (.ok (), withColumns db (Database.newTable t))) ∧
    (¬ (t.columns.map Column.storageName).Nodup →
      (addColumns (Database.newTable t).columnRows (withTable db (Database.newTable t))).1 =
        Database.reject (.notUnique "_columns.table_id, _columns.storage_name".toList)) := by
  have hOwn : ∀ c ∈ (Database.newTable t).columnRows, c.table = t.id := by
    intro c hc
    obtain ⟨d, -, rfl⟩ := List.mem_map.mp hc
    rfl
  have hNone : (withTable db (Database.newTable t)).storageNames t.id = [] :=
    storageNames_of_free hFree
  have hColumns := addColumns_eq hOwn (hNone ▸ List.nodup_nil)
  rwa [hNone, List.nil_append, map_storageName_columnRows] at hColumns

/-- **Definition in relations.**  The writing of rows one after another in a transaction does
what definition does: it succeeds or fails in the same way, and afterwards the relations are
those of the database that definition leaves. -/
theorem define_relations (db : Database) (t : Table) :
    define t db.relations =
      ((db.define t).map fun _ => (), (db.perform (.define t)).relations) := by
  have hPerform : db.perform (.define t) = (db.written (db.define t)).2 := rfl
  have hTable : addTable (Database.newTable t).row db.relations =
      db.relations.written _ (db.checkRegister t.id t.displayName .data) :=
    addTable_relations db (Database.newTable t)
  rw [hPerform, define_eq]
  unfold define
  cases checkTable t with
  | error e => rfl
  | ok _ =>
      simp only
      cases hRegister : db.checkRegister t.id t.displayName .data with
      | error e =>
          rw [hRegister] at hTable
          exact Work.atomically_of_error (Work.andThen_of_error (congrArg Prod.fst hTable))
      | ok _ =>
          rw [hRegister] at hTable
          obtain ⟨hAdded, hRefused⟩ :=
            addColumns_withTable (withId_of_checkRegister hRegister)
          by_cases hDistinct : (t.columns.map Column.storageName).Nodup
          · have hWork := (Work.andThen_of_ok hTable).trans ((Work.andThen_of_ok
              (hAdded hDistinct)).trans (create_withColumns (u := Database.newTable t) db rfl
                ((t.columns.map Column.storageName).map fun n => '"' :: n ++ ['"'])))
            rw [if_pos hDistinct]
            change _ = (withColumns db _).written _ (db.checkCreate t.id
              (t.columns.map Column.storageName) _) at hWork
            cases hCreate : db.checkCreate t.id (t.columns.map Column.storageName)
                ((t.columns.map Column.storageName).map fun n => '"' :: n ++ ['"']) with
            | error e =>
                rw [hCreate] at hWork
                exact Work.atomically_of_error (congrArg Prod.fst hWork)
            | ok _ =>
                rw [hCreate] at hWork
                exact Work.atomically_of_ok hWork
          · rw [if_neg hDistinct]
            refine Work.atomically_of_error ?_
            rw [Work.andThen_of_ok hTable]
            exact Work.andThen_of_error (hRefused hDistinct)

end Defining

end Relations

end TableTalk
