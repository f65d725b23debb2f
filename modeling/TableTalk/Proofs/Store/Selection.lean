import TableTalk.Proofs.Store.Rows

/-!
# What a selection finds

A selection of columns of a registered table goes through exactly when its statement can
be written and is not too large.  It gives the cells of the rows that satisfy the query, in
their ordering, with the empty text where a row has no value (`Database.select_eq`).  The
ordering loses no row and adds none (`Database.sorted_perm`).
-/

namespace TableTalk

/-! ### Cells -/

/-- A value as a cell. -/
def Cell.ofValue : Option Text → Cell
  | some t => .text t
  | none => .missing

/-- What a selection gives for a value: the empty text if there is none. -/
theorem Database.cellText_ofValue (value : Option Text) :
    cellText (Cell.ofValue value) = .ok (value.getD []) := by
  cases value <;> rfl

variable {t : Table} {rows : List StoredRow}

/-- Under the name of a column stands its value. -/
theorem StoredTable.cell_ofTable (ht : t.IsDefinable) {c : Column} (hc : c ∈ t.columns)
    (row : Nat × StoredRow) :
    (ofTable t rows).cell row c.storageName = Cell.ofValue (row.2.value? c.storageName) := by
  have hSaved : Text.lower c.storageName ≠ Bookkeeping.saved := ht.lower_ne hc _
  have hPhone : Text.lower c.storageName ≠ Bookkeeping.phone := ht.lower_ne hc _
  have hTimestamp : Text.lower c.storageName ≠ Bookkeeping.timestamp := ht.lower_ne hc _
  unfold cell
  simp only [hSaved, hPhone, hTimestamp, if_false, ht.columnNamed_ofTable hc]
  cases row.2.value? c.storageName <;> rfl

/-! ### Rows -/

namespace Database

variable {db : Database}

theorem sorted_perm (stored : StoredTable) (table : Table) (order : Option OrderBy)
    (rows : List (Nat × StoredRow)) : (sorted stored table order rows).Perm rows := by
  unfold sorted
  split
  · exact List.Perm.refl _
  · split
    · exact List.mergeSort_perm _ _
    · exact List.mergeSort_perm _ _

/-- Without conditions every finished row is found. -/
theorem exists_mem_matching_iff (query : Query) (hQuery : query.constraints = [])
    (hComplete : ∀ r ∈ rows, r.isComplete = true) {p : StoredRow → Prop} :
    (∃ row ∈ matching (.ofTable t rows) t query, p row.2) ↔ ∃ r ∈ rows, p r := by
  have hRows : (StoredTable.ofTable t rows).numberedRows.map Prod.snd = rows := by
    unfold StoredTable.numberedRows
    rw [List.map_snd_zip]
    · rfl
    · simp
  have hAll : matching (.ofTable t rows) t query =
      (StoredTable.ofTable t rows).numberedRows := by
    refine List.filter_eq_self.mpr fun row hrow => ?_
    have hr : row.2 ∈ rows := by
      rw [← hRows]
      exact List.mem_map_of_mem hrow
    rw [hComplete row.2 hr, hQuery]
    rfl
  rw [hAll]
  constructor
  · rintro ⟨row, hrow, hp⟩
    refine ⟨row.2, ?_, hp⟩
    rw [← hRows]
    exact List.mem_map_of_mem hrow
  · rintro ⟨r, hr, hp⟩
    rw [← hRows] at hr
    obtain ⟨row, hrow, rfl⟩ := List.mem_map.mp hr
    exact ⟨row, hrow, hp⟩

/-- A statement that is answered is not too large. -/
theorem fits_of_select {query : Query} {columns : List Text} {found : List Row}
    (h : db.select t query columns = .ok found) :
    Statement.depth t query ≤ Statement.maxDepth ∧ columns.length ≤ Statement.maxColumns := by
  unfold select at h
  split at h
  · cases h
  · split at h
    · cases h
    · split at h
      · cases h
      · rename_i hDeep
        split at h
        · split at h
          · cases h
          · split at h <;> cases h
        · split at h
          · cases h
          · rename_i hWide
            exact ⟨not_lt.mp hDeep, not_lt.mp hWide⟩

/-- A selection gives the values of the rows that satisfy the query. -/
theorem select_eq (ht : t.IsDefinable) (h : db.Registers (.ofTable t rows)) {query : Query}
    {columns : List Column} (hColumns : ∀ c ∈ columns, c ∈ t.columns) (hSome : columns ≠ [])
    (hDeep : Statement.depth t query ≤ Statement.maxDepth)
    (hWide : columns.length ≤ Statement.maxColumns) {statement : Text}
    (hStatement : Statement.select t query (columns.map Column.storageName) = .ok statement) :
    db.select t query (columns.map Column.storageName) =
      .ok ((sorted (.ofTable t rows) t query.orderBy (matching (.ofTable t rows) t query)).map
        fun row => columns.map fun c => (row.2.value? c.storageName).getD []) := by
  have hNamed : db.named t.id = some (.ofTable t rows) := h.named
  have hNotEmpty : (columns.map Column.storageName).isEmpty = false := by
    rw [List.isEmpty_eq_false_iff, ne_eq, List.map_eq_nil_iff]
    exact hSome
  have hRow : ∀ row : Nat × StoredRow,
      ((columns.map Column.storageName).mapM fun name =>
        cellText ((StoredTable.ofTable t rows).cell row name)) =
        .ok (columns.map fun c => (row.2.value? c.storageName).getD []) := by
    intro row
    rw [List.mapM_map]
    refine Traversal.mapM_eq_ok_map fun c hc => ?_
    rw [Function.comp_apply, StoredTable.cell_ofTable ht (hColumns c hc), cellText_ofValue]
  unfold select
  simp only [hStatement, hNotEmpty, hNamed, List.length_map, not_lt.mpr hDeep, not_lt.mpr hWide,
    Bool.false_eq_true, if_false]
  exact Traversal.mapM_eq_ok_map fun row _ => hRow row

/-- A statement about columns of the table, without conditions, can be written. -/
theorem exists_statement (ht : t.IsDefinable) {c : Column} (hc : c ∈ t.columns)
    (direction : SortOrder) :
    ∃ statement, Statement.select t { orderBy := some ⟨c.storageName, direction⟩ }
      [c.storageName] = .ok statement := by
  have hColumn : Statement.quoteName c.storageName = .ok ('"' :: c.storageName ++ ['"']) := by
    unfold Statement.quoteName
    rw [if_pos (ht.isName c hc)]
  have hId : Statement.quoteName t.id = .ok ('"' :: t.id ++ ['"']) := by
    unfold Statement.quoteName
    rw [if_pos ht.id_isName]
  unfold Statement.select Statement.ordering Statement.columnExpression
  simp only [List.mapM_cons, List.mapM_nil, hColumn, hId]
  exact ⟨_, rfl⟩

/-- The selection of one column, without conditions, finds its cell in every row. -/
theorem exists_select_column (ht : t.IsDefinable) (h : db.Registers (.ofTable t rows))
    (hComplete : ∀ r ∈ rows, r.isComplete = true) {c : Column} (hc : c ∈ t.columns)
    (direction : SortOrder) :
    ∃ found, db.select t { orderBy := some ⟨c.storageName, direction⟩ } [c.storageName] =
        .ok found ∧
      ∀ x, x ∈ found.filterMap List.head? ↔
        ∃ r ∈ rows, (r.value? c.storageName).getD [] = x := by
  have hColumns : ∀ d ∈ [c], d ∈ t.columns := by
    intro d hd
    rwa [List.mem_singleton.mp hd]
  obtain ⟨statement, hStatement⟩ := exists_statement ht hc direction
  have hDeep : Statement.depth t { orderBy := some ⟨c.storageName, direction⟩ } ≤
      Statement.maxDepth := by
    show 2 ≤ 1000
    omega
  have hWide : [c].length ≤ Statement.maxColumns := by
    show 1 ≤ 2000
    omega
  refine ⟨_, select_eq ht h hColumns (List.cons_ne_nil _ _) hDeep hWide hStatement, fun x => ?_⟩
  rw [List.filterMap_map, List.mem_filterMap]
  simp only [Function.comp_apply, List.map_cons, List.head?_cons, Option.some.injEq]
  rw [← exists_mem_matching_iff { orderBy := some ⟨c.storageName, direction⟩ } rfl hComplete]
  exact exists_congr fun row => and_congr_left fun _ => (sorted_perm _ _ _ _).mem_iff

end Database

end TableTalk
