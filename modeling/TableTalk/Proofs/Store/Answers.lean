import TableTalk.Proofs.Query.Result
import TableTalk.Proofs.Statement.Reading
import TableTalk.Proofs.Store.Engine
import TableTalk.Proofs.Store.Reach

/-!
# Selections compute their queries

The statement of a query, read back with its values, is the selection that is meant
(`Statement.Selection.read?_select`), and its condition is true of exactly the rows that the
query asks for (`Statement.truth_condition_iff`).  So what a database may answer to the
statement is what the query asks for, whichever way it puts rows with equal keys.

A store with an engine that does what its manual says therefore selects a result of the
query, up to the limits of the engine, and the store that is run here is one of these
(`Database.select_computes`).
-/

namespace TableTalk

variable {t : Table} {rows : List StoredRow} {query : Query} {columns : List Text}

/-! ### The condition of a statement -/

namespace Statement

/-- The name is that of a column. -/
def Names (t : Table) (n : Text) : Prop :=
  n ∈ t.columns.map Column.storageName

theorem Names.cell (ht : t.IsDefinable) {n : Text} (hn : Names t n) (row : ℕ × StoredRow) :
    (StoredTable.ofTable t rows).cell row n = Cell.ofValue (row.2.value? n) := by
  obtain ⟨c, hc, rfl⟩ := List.mem_map.mp hn
  exact StoredTable.cell_ofTable ht hc row

variable {n : Text} (cast : Text → ℤ) (row : ℕ × StoredRow)

/-- The operand of a column is its value, as a number on a number column. -/
theorem key_columnOperand (ht : t.IsDefinable) (hn : Names t n) :
    (columnOperand t n).key cast (.ofTable t rows) row =
      Cell.valueKey cast (isNumeric t n) (row.2.value? n) := by
  unfold columnOperand
  cases isNumeric t n with
  | true =>
      change Operand.castKey cast (((StoredTable.ofTable t rows).cell row n).key false) = _
      rw [hn.cell ht]
      cases row.2.value? n <;> rfl
  | false =>
      change ((StoredTable.ofTable t rows).cell row n).key false = _
      rw [hn.cell ht]
      cases row.2.value? n <;> rfl

/-- Both operands of a comparison are numbers by their kind, or neither is. -/
theorem isNumber_columnOperand (ht : t.IsDefinable) (hn : Names t n) (rows : List StoredRow)
    (v : Text) :
    (columnOperand t n).isNumber (.ofTable t rows) row =
      (valueOperand t n v).isNumber (.ofTable t rows) row := by
  unfold columnOperand valueOperand
  cases isNumeric t n with
  | true => rfl
  | false =>
      rw [if_neg Bool.false_ne_true, if_neg Bool.false_ne_true, Operand.isNumber, hn.cell ht]
      cases row.2.value? n <;> rfl

/-- A comparison is true of the values that it holds of, and of no missing one. -/
theorem truth_comparisonCondition_iff (ht : t.IsDefinable) (hn : Names t n) (x : Comparison) :
    (comparisonCondition t n x).truth cast (.ofTable t rows) row = some true ↔
      ∃ value, row.2.value? n = some value ∧ x.HoldsIn cast t n value := by
  have hKinds := isNumber_columnOperand row ht hn rows x.value
  have hValue : (valueOperand t n x.value).key cast (.ofTable t rows) row =
      Cell.valueKey cast (isNumeric t n) (some x.value) := by
    unfold valueOperand
    cases isNumeric t n <;> rfl
  -- No text stands beside a number, so that none is read as a number but by a cast.
  unfold comparisonCondition
  simp only [Condition.truth, Operand.keyBeside, hKinds, Bool.and_not_self, Bool.false_eq_true,
    if_false, hValue, key_columnOperand cast row ht hn]
  simp only [← Comparison.admits_valueKey_iff ht cast n x]
  cases row.2.value? n with
  | none => simp [Cell.valueKey, Comparator.truth]
  | some value => cases isNumeric t n <;> simp [Cell.valueKey, Comparator.truth]

theorem truth_constraintCondition_iff (ht : t.IsDefinable) {c : Constraint}
    (hc : Names t c.column) :
    (constraintCondition t c).truth cast (.ofTable t rows) row = some true ↔
      row.2.Satisfies cast t c := by
  unfold constraintCondition StoredRow.Satisfies Constraint.comparisons
  cases c.second with
  | none => simp [truth_comparisonCondition_iff cast row ht hc]
  | some second =>
      simp only [Condition.truth, either_eq_true_iff, truth_comparisonCondition_iff cast row ht hc]
      cases row.2.value? c.column <;> simp

theorem truth_completeCondition_iff (s : StoredTable) :
    completeCondition.truth cast s row = some true ↔ row.2.isComplete = true := by
  have hSaved : s.cell row Bookkeeping.saved = Cell.ofValue row.2.saved := by
    unfold StoredTable.cell
    rw [if_pos (by decide)]
    cases row.2.saved <;> rfl
  have hNumber : (Operand.column Bookkeeping.saved).isNumber s row = false := by
    rw [Operand.isNumber, hSaved]
    cases row.2.saved <;> rfl
  have hKey : (Operand.column Bookkeeping.saved).keyBeside cast s row
      (.value Bookkeeping.complete) = (Cell.ofValue row.2.saved).key false := by
    unfold Operand.keyBeside
    rw [if_neg (by simp [Operand.isNumber]), Operand.key, hSaved]
  have hValue : (Operand.value Bookkeeping.complete).keyBeside cast s row
      (.column Bookkeeping.saved) = .text Bookkeeping.complete := by
    unfold Operand.keyBeside
    rw [hNumber]
    rfl
  unfold completeCondition Condition.truth StoredRow.isComplete
  rw [hKey, hValue]
  cases row.2.saved with
  | none => simp [Cell.ofValue, Cell.key, Comparator.truth]
  | some mark =>
      change some (Comparator.equals.admits (Text.order mark Bookkeeping.complete)) = some true ↔ _
      rw [Option.some.injEq, Comparator.admits, beq_iff_eq, Text.order_eq_eq_iff, beq_iff_eq,
        Option.some.injEq]

/-- **The condition of a statement** is true of the finished rows that satisfy every
constraint, and of no other. -/
theorem truth_condition_iff (ht : t.IsDefinable)
    (hConstraints : ∀ c ∈ query.constraints, Names t c.column) :
    (Selection.ofQuery t query columns).condition.truth cast (.ofTable t rows) row = some true ↔
      row.2.isComplete = true ∧ ∀ c ∈ query.constraints, row.2.Satisfies cast t c := by
  have hFold (cs : List Condition) (x : Condition) :
      (cs.foldl .both x).truth cast (.ofTable t rows) row = some true ↔
        x.truth cast (.ofTable t rows) row = some true ∧
          ∀ y ∈ cs, y.truth cast (.ofTable t rows) row = some true := by
    induction cs generalizing x with
    | nil => simp
    | cons y cs ih => simp [ih, Condition.truth, both_eq_true_iff, and_assoc]
  unfold Selection.ofQuery
  rw [hFold, truth_completeCondition_iff]
  simp only [List.forall_mem_map]
  exact and_congr_right fun _ => forall₂_congr fun c hc =>
    truth_constraintCondition_iff cast row ht (hConstraints c hc)

/-! ### The order of rows -/

/-- Keys of a column stand as the numbers or the bytes of its values do. -/
theorem place_le_iff (ht : t.IsDefinable) (a b : StoredRow) :
    (Cell.valueKey cast (isNumeric t n) (a.value? n)).place ≤
        (Cell.valueKey cast (isNumeric t n) (b.value? n)).place ↔ a.NotAbove cast t n b := by
  unfold StoredRow.NotAbove StoredRow.numberPlace StoredRow.bytesPlace
  rw [← ht.isNumeric_iff]
  cases isNumeric t n with
  | true =>
      cases a.value? n <;> cases b.value? n <;> simp [Cell.valueKey, Cell.Key.place]
  | false =>
      cases a.value? n <;> cases b.value? n <;>
        simp [Cell.valueKey, Cell.Key.place, Text.bytes_le_bytes_iff]

/-- An ordering by a column compares the keys of its values. -/
theorem inOrder_iff_allows (ht : t.IsDefinable) {o : OrderBy} (hBy : query.orderBy = some o)
    (hn : Names t o.column) (a b : ℕ × StoredRow) :
    (Selection.ofQuery t query columns).InOrder cast (.ofTable t rows) a b ↔
      o.Allows cast t a.2 b.2 := by
  unfold Selection.InOrder Selection.ofQuery OrderBy.Allows
  rw [hBy]
  dsimp only
  rw [key_columnOperand cast a ht hn, key_columnOperand cast b ht hn]
  cases o.order with
  | ascending => exact Cell.Key.order_ne_gt_iff.trans (place_le_iff cast ht a.2 b.2)
  | descending => exact Cell.Key.order_ne_gt_iff.trans (place_le_iff cast ht b.2 a.2)

/-- No column has the name of the row number. -/
theorem cell_id (ht : t.IsDefinable) (row : ℕ × StoredRow) :
    (StoredTable.ofTable t rows).cell row Bookkeeping.id = .rowNumber row.1 := by
  have hNone : (StoredTable.ofTable t rows).columnNamed Bookkeeping.id = none := by
    refine List.find?_eq_none.mpr fun n hn hSame => ?_
    obtain ⟨c, hc, rfl⟩ := List.mem_map.mp hn
    exact ht.lower_ne hc _ (Text.sameLetters_iff.mp hSame)
  unfold StoredTable.cell
  rw [hNone, if_neg (by decide), if_neg (by decide), if_neg (by decide)]
  rfl

/-- Without an ordering by a column rows are ordered by their numbers. -/
theorem inOrder_iff_le (ht : t.IsDefinable) (hBy : query.orderBy = none) (columns : List Text)
    (rows : List StoredRow) (a b : ℕ × StoredRow) :
    (Selection.ofQuery t query columns).InOrder cast (.ofTable t rows) a b ↔ a.1 ≤ b.1 := by
  have hKey (row : ℕ × StoredRow) : (Operand.column Bookkeeping.id).key cast (.ofTable t rows) row =
      .number (Cell.rowUnits row.1) := by
    rw [Operand.key, cell_id ht]
    rfl
  have hUnits : Cell.rowUnits a.1 ≤ Cell.rowUnits b.1 ↔ a.1 ≤ b.1 := by
    unfold Cell.rowUnits
    -- The power is never computed.
    generalize 1074 = exponent
    have hPositive : (0 : ℤ) < (Nat.pow 2 exponent : ℕ) :=
      Int.natCast_pos.mpr (Nat.pow_pos Nat.two_pos)
    rw [mul_le_mul_iff_left₀ hPositive, Int.ofNat_le]
  unfold Selection.InOrder Selection.ofQuery
  rw [hBy]
  dsimp only
  rw [hKey, hKey, Cell.Key.order_ne_gt_iff, ← hUnits]
  simp [Cell.Key.place]

/-! ### The depth of a statement -/

/-- How deep a query is, is how deep its condition is. -/
theorem depth_ofQuery (t : Table) (query : Query) (columns : List Text) :
    (Selection.ofQuery t query columns).condition.depth = depth t query := by
  have hComparison (n : Text) (x : Comparison) :
      (comparisonCondition t n x).depth = comparisonDepth t n := by
    unfold comparisonCondition columnOperand valueOperand comparisonDepth
    cases isNumeric t n <;> rfl
  have hConstraint (c : Constraint) : (constraintCondition t c).depth = conditionDepth t c := by
    unfold constraintCondition conditionDepth
    cases c.second with
    | none => exact hComparison _ _
    | some second => simp [Condition.depth, hComparison]
  have hFold (cs : List Constraint) (x : Condition) :
      ((cs.map (constraintCondition t)).foldl .both x).depth =
        cs.foldl (fun depth c => max depth (conditionDepth t c) + 1) x.depth := by
    induction cs generalizing x with
    | nil => rfl
    | cons c cs ih =>
        rw [List.map_cons, List.foldl_cons, List.foldl_cons, ih, Condition.depth, hConstraint]
  exact hFold query.constraints completeCondition

/-- Every constraint makes a query deeper. -/
theorem length_add_two_le_depth (t : Table) (query : Query) :
    query.constraints.length + 2 ≤ depth t query := by
  have hFold (cs : List Constraint) (d : ℕ) :
      cs.length + d ≤ cs.foldl (fun depth c => max depth (conditionDepth t c) + 1) d := by
    induction cs generalizing d with
    | nil => exact le_of_eq (Nat.zero_add d)
    | cons c cs ih =>
        rw [List.foldl_cons, List.length_cons]
        have hRest := ih (max d (conditionDepth t c) + 1)
        have hFirst := le_max_left d (conditionDepth t c)
        omega
  exact hFold query.constraints 2

end Statement

/-! ### Answers -/

/-- Rows are numbered in ascending order. -/
theorem StoredTable.pairwise_numberedRows (s : StoredTable) :
    s.numberedRows.Pairwise fun a b => a.1 < b.1 := by
  have hNumbers : s.numberedRows.map Prod.fst = List.range' 1 s.rows.length := by
    unfold numberedRows
    exact List.map_fst_zip (by simp)
  have hAscending : (s.numberedRows.map Prod.fst).Pairwise (· < ·) := by
    rw [hNumbers]
    exact List.pairwise_lt_range'
  exact List.pairwise_map.mp hAscending

theorem StoredTable.nodup_numberedRows (s : StoredTable) : s.numberedRows.Nodup :=
  s.pairwise_numberedRows.imp fun hlt hSame => by
    rw [hSame] at hlt
    exact lt_irrefl _ hlt

/-- Rows of one number are the same. -/
theorem StoredTable.eq_of_number (s : StoredTable) {a b : ℕ × StoredRow}
    (ha : a ∈ s.numberedRows) (hb : b ∈ s.numberedRows) (hSame : a.1 = b.1) : a = b := by
  have hNumbers : (s.numberedRows.map Prod.fst).Nodup :=
    List.pairwise_map.mpr (s.pairwise_numberedRows.imp ne_of_lt)
  exact List.inj_on_of_nodup_map hNumbers ha hb hSame

namespace Statement

/-- The rows that answer a selection are those that its query chooses. -/
theorem chosen_iff (cast : Text → ℤ) (ht : t.IsDefinable)
    (hConstraints : ∀ c ∈ query.constraints, Names t c.column)
    (hOrder : ∀ o, query.orderBy = some o → Names t o.column)
    (chosen : List (ℕ × StoredRow)) :
    (chosen.Perm ((Selection.ofQuery t query columns).matching cast (.ofTable t rows)) ∧
      chosen.Pairwise ((Selection.ofQuery t query columns).InOrder cast (.ofTable t rows))) ↔
    query.Chooses cast t (StoredTable.ofTable t rows).numberedRows chosen := by
  let s : StoredTable := .ofTable t rows
  let matching := (Selection.ofQuery t query columns).matching cast s
  have hNodup : matching.Nodup := s.nodup_numberedRows.filter _
  have hMem : ∀ row, row ∈ matching ↔ row ∈ s.numberedRows ∧ row.2.isComplete = true ∧
      ∀ c ∈ query.constraints, row.2.Satisfies cast t c := by
    intro row
    rw [← truth_condition_iff cast row ht hConstraints, ← beq_iff_eq]
    exact List.mem_filter
  constructor
  · rintro ⟨hPerm, hPairwise⟩
    refine ⟨hPerm.nodup_iff.mpr hNodup, fun row => hPerm.mem_iff.trans (hMem row), ?_, ?_⟩
    · intro hBy
      -- Numbers that never fall leave one order only: that in which the rows were written.
      have hChosen : chosen.Pairwise fun a b => a.1 ≤ b.1 :=
        hPairwise.imp fun h => (inOrder_iff_le cast ht hBy columns rows _ _).mp h
      have hMatching : matching.Pairwise fun a b => a.1 ≤ b.1 :=
        (s.pairwise_numberedRows.filter _).imp le_of_lt
      have hSame : chosen = matching := by
        refine hPerm.eq_of_pairwise (fun a b ha hb hab hba => ?_) hChosen hMatching
        have ha' := ((hMem a).mp (hPerm.mem_iff.mp ha)).1
        exact s.eq_of_number ha' ((hMem b).mp hb).1 (le_antisymm hab hba)
      rw [hSame]
      exact List.filter_sublist
    · intro o hBy
      exact hPairwise.imp fun h => (inOrder_iff_allows cast ht hBy (hOrder o hBy) _ _).mp h
  · intro h
    refine ⟨(List.perm_ext_iff_of_nodup h.nodup hNodup).mpr fun row =>
      (h.mem_iff row).trans (hMem row).symm, ?_⟩
    cases hBy : query.orderBy with
    | none =>
        have hNumbers := s.pairwise_numberedRows.sublist (h.unordered hBy)
        exact hNumbers.imp fun hlt => (inOrder_iff_le cast ht hBy _ _ _ _).mpr (le_of_lt hlt)
    | some o =>
        exact (h.ordered o hBy).imp fun hAllowed =>
          (inOrder_iff_allows cast ht hBy (hOrder o hBy) _ _).mpr hAllowed

/-- Without an ordering by a column rows stay as they were written. -/
theorem chosen_eq_matching (cast : Text → ℤ) (ht : t.IsDefinable) (hBy : query.orderBy = none)
    (columns : List Text) (rows : List StoredRow) :
    (Selection.ofQuery t query columns).chosen cast (.ofTable t rows) =
      (Selection.ofQuery t query columns).matching cast (.ofTable t rows) := by
  have hDirection : (Selection.ofQuery t query columns).direction = .ascending := by
    unfold Selection.ofQuery
    rw [hBy]
  have hInOrder (a b : ℕ × StoredRow) (hlt : a.1 < b.1) :
      (Cell.Key.order ((Selection.ofQuery t query columns).rowKey cast (.ofTable t rows) a)
        ((Selection.ofQuery t query columns).rowKey cast (.ofTable t rows) b) != .gt) = true := by
    have hAllowed := (inOrder_iff_le cast ht hBy columns rows a b).mpr (le_of_lt hlt)
    unfold Selection.InOrder at hAllowed
    rw [hDirection] at hAllowed
    rw [bne_iff_ne]
    exact hAllowed
  unfold Selection.chosen
  rw [hDirection]
  refine List.mergeSort_of_pairwise ?_
  exact ((StoredTable.pairwise_numberedRows _).filter _).imp fun {a b} hlt => hInOrder a b hlt

/-- The cells that are given for a row are read as texts. -/
theorem mapM_cellText (ht : t.IsDefinable) (hColumns : ∀ n ∈ columns, Names t n)
    (rows : List StoredRow) (chosen : List (ℕ × StoredRow)) :
    ((chosen.map fun row => columns.map ((StoredTable.ofTable t rows).cell row)).mapM
      fun row => row.mapM Database.cellText) =
      .ok (chosen.map fun row => columns.map fun n => (row.2.value? n).getD []) := by
  rw [List.mapM_map]
  refine Traversal.mapM_eq_ok_map fun row _ => ?_
  rw [Function.comp_apply, List.mapM_map]
  refine Traversal.mapM_eq_ok_map fun n hn => ?_
  rw [Function.comp_apply, (hColumns n hn).cell ht, Database.cellText_ofValue]

/-- **A statement asks what its query asks.**  The rows that answer the selection meant by a
query are the results of the query. -/
theorem answers_iff (cast : Text → ℤ) (ht : t.IsDefinable) (hColumns : ∀ n ∈ columns, Names t n)
    (hConstraints : ∀ c ∈ query.constraints, Names t c.column)
    (hOrder : ∀ o, query.orderBy = some o → Names t o.column) (rows : List StoredRow)
    (found : List Row) :
    (∃ cells, (Selection.ofQuery t query columns).Answers cast (.ofTable t rows) cells ∧
        (cells.mapM fun row => row.mapM Database.cellText) = .ok found) ↔
      query.Result cast t columns (StoredTable.ofTable t rows).numberedRows found := by
  constructor
  · rintro ⟨cells, ⟨chosen, hPerm, hPairwise, rfl⟩, hFound⟩
    refine ⟨chosen, (chosen_iff cast ht hConstraints hOrder chosen).mp ⟨hPerm, hPairwise⟩, ?_⟩
    exact (Except.ok.inj ((mapM_cellText ht hColumns rows chosen).symm.trans hFound)).symm
  · rintro ⟨chosen, hChosen, rfl⟩
    obtain ⟨hPerm, hPairwise⟩ := (chosen_iff cast ht hConstraints hOrder chosen).mpr hChosen
    exact ⟨_, ⟨chosen, hPerm, hPairwise, rfl⟩, mapM_cellText ht hColumns rows chosen⟩

/-- The rows may be selected by a statement with values from a database. -/
def Answers (cast : Text → ℤ) (db : Database) (statement : Text) (values : List Text)
    (found : List Row) : Prop :=
  ∃ q s cells, Selection.read? statement values = some q ∧ db.named q.table = some s ∧
    q.Answers cast s cells ∧ (cells.mapM fun row => row.mapM Database.cellText) = .ok found

end Statement

namespace Database

open Statement (Names Selection)

/-! ### The store -/

theorem rowSatisfies_iff (ht : t.IsDefinable) (row : ℕ × StoredRow) {c : Constraint}
    (hc : Names t c.column) :
    rowSatisfies (.ofTable t rows) t row c = true ↔ row.2.Satisfies Text.real t c := by
  rw [StoredRow.satisfies_iff ht, rowSatisfies, hc.cell ht, List.any_eq_true]
  cases row.2.value? c.column with
  | none => simp [Cell.ofValue, Cell.satisfies]
  | some value => simp [Cell.ofValue, Cell.satisfies]

/-- The store finds the rows whose condition is true. -/
theorem matching_eq (ht : t.IsDefinable)
    (hConstraints : ∀ c ∈ query.constraints, Names t c.column) (columns : List Text)
    (rows : List StoredRow) :
    matching (.ofTable t rows) t query =
      (Selection.ofQuery t query columns).matching Text.real (.ofTable t rows) := by
  unfold matching Selection.matching
  refine List.filter_congr fun row _ => ?_
  rw [Bool.eq_iff_iff, beq_iff_eq, Statement.truth_condition_iff Text.real row ht hConstraints,
    Bool.and_eq_true, List.all_eq_true]
  exact and_congr_right fun _ => forall₂_congr fun c hc =>
    rowSatisfies_iff ht row (hConstraints c hc)

/-- The key that the store orders a row by is that of the statement. -/
theorem key_cell_eq (ht : t.IsDefinable) {o : OrderBy} (hBy : query.orderBy = some o)
    (hn : Names t o.column) (columns : List Text) (rows : List StoredRow) (row : ℕ × StoredRow) :
    ((StoredTable.ofTable t rows).cell row o.column).key (Statement.isNumeric t o.column) =
      (Selection.ofQuery t query columns).rowKey Text.real (.ofTable t rows) row := by
  have hKey : (Selection.ofQuery t query columns).key = Statement.columnOperand t o.column := by
    unfold Selection.ofQuery
    rw [hBy]
  rw [Selection.rowKey, hKey, Statement.key_columnOperand Text.real row ht hn, hn.cell ht]
  cases row.2.value? o.column <;> rfl

/-- The store puts the rows in the order of the statement. -/
theorem sorted_eq (ht : t.IsDefinable)
    (hConstraints : ∀ c ∈ query.constraints, Names t c.column)
    (hOrder : ∀ o, query.orderBy = some o → Names t o.column) (columns : List Text)
    (rows : List StoredRow) :
    sorted (.ofTable t rows) t query.orderBy (matching (.ofTable t rows) t query) =
      (Selection.ofQuery t query columns).chosen Text.real (.ofTable t rows) := by
  rw [matching_eq ht hConstraints columns rows]
  cases hBy : query.orderBy with
  | none => exact (Statement.chosen_eq_matching Text.real ht hBy columns rows).symm
  | some o =>
      have hKey := key_cell_eq ht hBy (hOrder o hBy) columns rows
      have hDirection : (Selection.ofQuery t query columns).direction = o.order := by
        unfold Selection.ofQuery
        rw [hBy]
      unfold sorted Selection.chosen
      cases hCase : o.order with
      | ascending => simp only [hKey, hDirection, hCase]
      | descending => simp only [hKey, hDirection, hCase]

/-- The store that is run here selects as with the engine that evaluates statements. -/
theorem select_eq_builtin (ht : t.IsDefinable) {db : Database}
    (hNamed : db.named t.id = some (.ofTable t rows)) {statement : Text}
    (hStatement : Statement.select t query columns = .ok statement)
    (hRead : Selection.read? statement (Statement.selectValues query) =
      some (Selection.ofQuery t query columns))
    (hSome : columns ≠ []) (hConstraints : ∀ c ∈ query.constraints, Names t c.column)
    (hOrder : ∀ o, query.orderBy = some o → Names t o.column) :
    Engine.builtin.select db t query columns = db.select t query columns := by
  have hNotEmpty : columns.isEmpty = false := List.isEmpty_eq_false_iff.mpr hSome
  have hTable : (Selection.ofQuery t query columns).table = t.id := rfl
  have hColumns : (Selection.ofQuery t query columns).columns = columns := rfl
  unfold Engine.select Engine.builtin select
  simp only [hStatement, hRead, Statement.depth_ofQuery, hTable, hColumns, hNamed, hNotEmpty,
    Bool.false_eq_true, if_false]
  by_cases hDeep : Statement.maxDepth < Statement.depth t query
  · rw [if_pos hDeep, if_pos hDeep]
  · rw [if_neg hDeep, if_neg hDeep]
    by_cases hWide : Statement.maxColumns < columns.length
    · rw [if_pos hWide, if_pos hWide]
    · rw [if_neg hWide, if_neg hWide, sorted_eq ht hConstraints hOrder columns rows]
      dsimp only
      rw [List.mapM_map]
      simp only [Function.comp_def, List.mapM_map]

/-- **Selections compute their queries.**  Take a table that was defined, a database reached
since then, and a query and some columns over that table.  The query is written as a
statement, which with the values of the query asks for the results of the query and for
nothing else.

With any engine that does what its manual says a selection within the limits of the engine
succeeds and gives a result of the query, by the numbers that the engine reads texts as.
Where texts open with numbers of few digits, it is the result by these numbers themselves.  A
selection that is too large is refused.  The store that is run here selects as with the
engine that evaluates statements. -/
theorem select_computes {E : Engine} (hE : E.Documented) {db₀ db₁ db : Database}
    (hDefine : db₀.define t = .ok db₁) (hReaches : db₁.Reaches db)
    (hColumns : ∀ n ∈ columns, n ∈ t.columns.map Column.storageName) (hSome : columns ≠ [])
    (hConstraints : ∀ c ∈ query.constraints, c.column ∈ t.columns.map Column.storageName)
    (hOrder : ∀ o, query.orderBy = some o → o.column ∈ t.columns.map Column.storageName) :
    ∃ stored statement, db.named t.id = some stored ∧
      Statement.select t query columns = .ok statement ∧
      (∀ answer, Statement.Answers E.cast db statement (Statement.selectValues query) answer ↔
        query.Result E.cast t columns stored.numberedRows answer) ∧
      ((Selection.ofQuery t query columns).Fits stored statement (Statement.selectValues query) →
        ∃ found, E.select db t query columns = .ok found ∧
          query.Result E.cast t columns stored.numberedRows found ∧
          ∀ number : Text → ℚ,
            (∀ v, query.Counts t stored.numberedRows v →
              v.Opens (number v) ∧ FewDigits (number v)) →
            query.Result number t columns stored.numberedRows found) ∧
      ((Selection.ofQuery t query columns).TooLarge →
        ∃ e, E.select db t query columns = .error e) ∧
      Engine.builtin.select db t query columns = db.select t query columns := by
  have ht : t.IsDefinable := (of_define hDefine).1
  obtain ⟨rows, hRegistered⟩ := hReaches.exists_registers ht (registers_of_define hDefine)
  have hNamed : db.named t.id = some (.ofTable t rows) := hRegistered.named
  have hName (n : Text) (hn : n ∈ t.columns.map Column.storageName) :
      Statement.isName n = true := by
    obtain ⟨c, hc, rfl⟩ := List.mem_map.mp hn
    exact ht.isName c hc
  have hNameable : Statement.Nameable t query columns :=
    ⟨ht.id_isName, fun n hn => hName n (hColumns n hn),
      fun c hc => hName c.column (hConstraints c hc),
      fun o ho => hName o.column (hOrder o ho)⟩
  obtain ⟨statement, hStatement, hRead⟩ := Statement.read?_select hNameable hSome
  have hAnswers := Statement.answers_iff E.cast ht hColumns hConstraints hOrder rows
  refine ⟨.ofTable t rows, statement, hNamed, hStatement, fun answer => ?_, fun hFits => ?_,
    fun hLarge => ?_, select_eq_builtin ht hNamed hStatement hRead hSome hConstraints hOrder⟩
  · rw [← hAnswers answer]
    constructor
    · rintro ⟨q, s, cells, hq, hs, hAnswer⟩
      obtain rfl := Option.some.inj (hRead.symm.trans hq)
      obtain rfl := Option.some.inj (hNamed.symm.trans hs)
      exact ⟨cells, hAnswer⟩
    · rintro ⟨cells, hAnswer⟩
      exact ⟨_, _, cells, hRead, hNamed, hAnswer⟩
  · obtain ⟨cells, hQuery, hCells⟩ := hE.answers hRead hNamed hFits
    obtain ⟨chosen, hPerm, hPairwise, rfl⟩ := hCells
    have hTexts := Statement.mapM_cellText ht hColumns rows chosen
    have hResult := (hAnswers _).mp ⟨_, ⟨chosen, hPerm, hPairwise, rfl⟩, hTexts⟩
    refine ⟨_, (Engine.select_of_query_ok hStatement hQuery).trans hTexts, hResult,
      fun number hNumber => hResult.of_le_iff fun a b ha hb => ?_⟩
    obtain ⟨haOpens, haFew⟩ := hNumber a ha
    obtain ⟨hbOpens, hbFew⟩ := hNumber b hb
    exact hE.cast_le_cast_iff haOpens hbOpens haFew hbFew
  · obtain ⟨e, hRefused⟩ : ∃ e, E.query db statement (Statement.selectValues query) = .error e :=
      hE.refuses hRead hLarge
    exact ⟨e, Engine.select_of_query_error hStatement hRefused⟩

/-- A shop with names and prices. -/
def shop : Table :=
  ⟨"shop".toList, "shop".toList,
    [{ storageName := ['n'], displayName := ['N'], type := .text },
      { storageName := ['p'], displayName := ['P'], type := .number }], none⟩

/-- A database with this table alone. -/
def shopDb (rows : List StoredRow) : Database :=
  ⟨[.ofTable shop rows]⟩

/-- When the rows are written. -/
def decemberNow : Instant :=
  Instant.midnight ⟨2024, 12, 24, by decide⟩

/-- Two rows with a price, one without, and one that was not finished. -/
def shopRows : List StoredRow :=
  [.finished decemberNow ['7'] [(['n'], "Fir".toList), (['p'], "7.50".toList)],
    ⟨none, none, none, [(['n'], "Oak".toList), (['p'], "12".toList)]⟩,
    .finished decemberNow ['7'] [(['n'], "Ash".toList)],
    .finished decemberNow ['7'] [(['n'], "Elm".toList), (['p'], "10".toList)]]

theorem define_shop : empty.define shop = .ok (shopDb []) := by
  rfl

theorem reaches_shopDb : (shopDb []).Reaches (shopDb shopRows) := by
  have hFir : (shopDb []).insert decemberNow shop
      [(['n'], "Fir".toList), (['p'], "7.50".toList)] ['7'] = .ok (shopDb (shopRows.take 1)) := by
    rfl
  have hOak : (shopDb (shopRows.take 1)).append shop.id
      [(['n'], some "Oak".toList), (['p'], some "12".toList)] =
        .ok (shopDb (shopRows.take 2)) := by
    rfl
  have hAsh : (shopDb (shopRows.take 2)).insert decemberNow shop [(['n'], "Ash".toList)] ['7'] =
      .ok (shopDb (shopRows.take 3)) := by
    rfl
  have hElm : (shopDb (shopRows.take 3)).insert decemberNow shop
      [(['n'], "Elm".toList), (['p'], "10".toList)] ['7'] = .ok (shopDb shopRows) := by
    rfl
  exact (((Reaches.refl.insert hFir).append hOak).insert hAsh).insert hElm

/-- Prices below 8 or above 9.5, the highest first. -/
def shopQuery : Query where
  constraints := [.either ['p'] ⟨.lessThan, ['8']⟩ ⟨.greaterThan, "9.5".toList⟩]
  orderBy := some ⟨['p'], .descending⟩

/-- The statement of this query. -/
def shopStatement : Text :=
  "SELECT \"n\", \"p\" FROM \"shop\" WHERE _saved = ? AND ".toList ++
    "(CAST(\"p\" AS REAL) < CAST(? AS REAL) OR CAST(\"p\" AS REAL) > CAST(? AS REAL))".toList ++
    " ORDER BY CAST(\"p\" AS REAL) DESC".toList

theorem fits_shop : (Selection.ofQuery shop shopQuery [['n'], ['p']]).Fits
    (.ofTable shop shopRows) shopStatement (Statement.selectValues shopQuery) where
  depth_le := by
    rw [Statement.depth_ofQuery]
    decide
  columns_le := by decide
  values_le := by decide
  statement_le := by decide +kernel
  value_le := by decide +kernel
  row_le := by decide +kernel

/-- All prices, in rows and in the query, are numbers of few digits. -/
theorem fewDigits_of_counts_shop {v : Text}
    (h : shopQuery.Counts shop (StoredTable.ofTable shop shopRows).numberedRows v) :
    FewDigits v.value := by
  have hValues : ∀ c ∈ shopQuery.constraints, ∀ x ∈ c.comparisons,
      (Decimal.leading x.value).coefficient < 10 ^ 15 ∧
        -300 ≤ (Decimal.leading x.value).exponent ∧ (Decimal.leading x.value).exponent ≤ 290 := by
    decide
  have hCells : ∀ row ∈ (StoredTable.ofTable shop shopRows).numberedRows,
      ∀ v ∈ row.2.value? ['p'],
        (Decimal.leading v).coefficient < 10 ^ 15 ∧
          -300 ≤ (Decimal.leading v).exponent ∧ (Decimal.leading v).exponent ≤ 290 := by
    decide
  have hColumns : ∀ c ∈ shopQuery.constraints, c.column = ['p'] := by decide
  have hShort : (Decimal.leading v).coefficient < 10 ^ 15 ∧
      -300 ≤ (Decimal.leading v).exponent ∧ (Decimal.leading v).exponent ≤ 290 := by
    cases h with
    | value hc hColumn hx => exact hValues _ hc _ hx
    | cell hc hColumn hRow hv =>
        rw [hColumns _ hc] at hv
        exact hCells _ hRow _ hv
    | key ho hColumn hRow hv =>
        obtain rfl := Option.some.inj ho
        exact hCells _ hRow _ hv
  exact Decimal.fewDigits_value hShort.1 hShort.2.1 hShort.2.2

/-- A query that says 999 times that the name is not Oak. -/
def insistentQuery : Query where
  constraints := List.replicate 999 (.single ['n'] .notEquals "Oak".toList)

/-- Prices are compared as numbers on both sides of the alternative and in the ordering.  The
conditions of the other query are too deep for one statement. -/
theorem select_computes_shop :
    Statement.select shop shopQuery [['n'], ['p']] = .ok shopStatement ∧
      (∀ answer, Statement.Answers Text.real (shopDb shopRows) shopStatement
          [Bookkeeping.complete, ['8'], "9.5".toList] answer ↔
        shopQuery.Result Text.real shop [['n'], ['p']]
          (StoredTable.ofTable shop shopRows).numberedRows answer) ∧
      (∃ found, (shopDb shopRows).select shop shopQuery [['n'], ['p']] = .ok found ∧
        shopQuery.Result Text.value shop [['n'], ['p']]
          (StoredTable.ofTable shop shopRows).numberedRows found) ∧
      ∃ e, (shopDb shopRows).select shop insistentQuery [['n']] = .error e := by
  have hWritten : Statement.select shop shopQuery [['n'], ['p']] = .ok shopStatement := by
    decide +kernel
  have hColumns : ∀ n ∈ [['n'], ['p']], n ∈ shop.columns.map Column.storageName := by decide
  have hConstraints : ∀ c ∈ shopQuery.constraints,
      c.column ∈ shop.columns.map Column.storageName := by decide
  have hOrder : ∀ o, shopQuery.orderBy = some o →
      o.column ∈ shop.columns.map Column.storageName := by decide
  obtain ⟨stored, statement, hNamed, hStatement, hAnswers, hFits, -, hBuiltin⟩ :=
    select_computes Engine.documented_builtin define_shop reaches_shopDb hColumns
      (List.cons_ne_nil _ _) hConstraints hOrder
  obtain rfl : .ofTable shop shopRows = stored := Option.some.inj hNamed
  obtain rfl : shopStatement = statement := Except.ok.inj (hWritten.symm.trans hStatement)
  obtain ⟨found, hFound, -, hNumbers⟩ := hFits fits_shop
  rw [hBuiltin] at hFound
  have hResult := hNumbers Text.value fun v hv =>
    ⟨Text.opens_value v, fewDigits_of_counts_shop hv⟩
  refine ⟨hWritten, hAnswers, ⟨found, hFound, hResult⟩, ?_⟩
  have hColumn : ∀ n ∈ [['n']], n ∈ shop.columns.map Column.storageName := by decide
  have hInsistent : ∀ c ∈ insistentQuery.constraints,
      c.column ∈ shop.columns.map Column.storageName := by
    intro c hc
    obtain rfl := List.eq_of_mem_replicate hc
    decide
  obtain ⟨-, -, -, -, -, -, hRefused, hSame⟩ :=
    select_computes Engine.documented_builtin define_shop reaches_shopDb hColumn
      (List.cons_ne_nil _ _) hInsistent nofun
  rw [← hSame]
  refine hRefused (Or.inl ?_)
  have hDepth := Statement.length_add_two_le_depth shop insistentQuery
  rw [Statement.depth_ofQuery]
  have hMany : Statement.maxDepth < insistentQuery.constraints.length + 2 := by
    rw [insistentQuery, List.length_replicate]
    decide
  exact lt_of_lt_of_le hMany hDepth

end Database

end TableTalk
