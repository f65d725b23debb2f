import Mathlib.Data.Int.ConditionallyCompleteOrder
import Mathlib.Data.Sum.Order
import Mathlib.Order.WithBot
import TableTalk.Proofs.Query.Found
import TableTalk.Proofs.Store.Selection

/-!
# The order of a selection

Rows are ordered by the key of one column.  Keys stand in one line: the missing value,
then numbers, then texts (`Cell.Key.place`), and comparing two keys is comparing their
places there (`Cell.Key.order_ne_gt_iff`).  The order is therefore total and transitive,
and an ascending selection gives rows whose keys never fall (`Database.pairwise_sorted`).

Of a text column the keys are the texts, and a row without a value is given as the empty
text, which no text comes before.  The cells that such a selection gives are in ascending
order as they stand (`Database.ascending_of_select`).
-/

namespace TableTalk

/-! ### Keys -/

namespace Cell.Key

/-- The place of a key in the line of all keys. -/
def place : Key → WithBot (ℤ ⊕ₗ Text)
  | missing => ⊥
  | number units => ((Sum.inlₗ units : ℤ ⊕ₗ Text) : WithBot (ℤ ⊕ₗ Text))
  | text t => ((Sum.inrₗ t : ℤ ⊕ₗ Text) : WithBot (ℤ ⊕ₗ Text))

/-- Keys are compared by their places. -/
theorem order_ne_gt_iff {a b : Key} : order a b ≠ .gt ↔ a.place ≤ b.place := by
  cases a with
  | missing => cases b <;> simp [order, place]
  | number m =>
      cases b with
      | missing => simp [order, place]
      | number n =>
          show compare m n ≠ .gt ↔ _
          simp [place, compare_gt_iff_gt]
      | text t => simp [order, place]
  | text s =>
      cases b with
      | missing => simp [order, place]
      | number n => simp [order, place]
      | text t =>
          show Text.order s t ≠ .gt ↔ _
          simp [place, Text.order_eq_gt_iff]

theorem order_bne_gt_iff {a b : Key} : (order a b != .gt) = true ↔ a.place ≤ b.place := by
  rw [bne_iff_ne, order_ne_gt_iff]

end Cell.Key

namespace Database

/-- What is sorted by places in a line never falls there. -/
theorem pairwise_mergeSort_of_le {α β : Type} [LinearOrder β] {f : α → β} {le : α → α → Bool}
    (h : ∀ a b, le a b = true ↔ f a ≤ f b) (xs : List α) :
    (xs.mergeSort le).Pairwise fun a b => f a ≤ f b := by
  have hSorted : (xs.mergeSort le).Pairwise fun a b => le a b = true := by
    apply List.pairwise_mergeSort
    · intro a b c hab hbc
      rw [h] at hab hbc ⊢
      exact le_trans hab hbc
    · intro a b
      rw [Bool.or_eq_true, h, h]
      exact le_total _ _
  simpa only [h] using hSorted

/-- The key of a row in an ordering by a column. -/
def rowKey (stored : StoredTable) (table : Table) (column : Text) (row : Nat × StoredRow) :
    Cell.Key :=
  (stored.cell row column).key (Statement.isNumeric table column)

/-- In an ascending order the keys never fall, in a descending one they never rise. -/
theorem pairwise_sorted_of (stored : StoredTable) (table : Table) (o : OrderBy)
    (rows : List (Nat × StoredRow)) :
    (sorted stored table (some o) rows).Pairwise fun a b =>
      match o.order with
      | .ascending => (rowKey stored table o.column a).place ≤ (rowKey stored table o.column b).place
      | .descending => (rowKey stored table o.column b).place ≤ (rowKey stored table o.column a).place := by
  obtain ⟨column, direction⟩ := o
  cases direction with
  | ascending =>
      exact pairwise_mergeSort_of_le (f := fun row => (rowKey stored table column row).place)
        (fun a b => Cell.Key.order_bne_gt_iff) rows
  | descending =>
      exact pairwise_mergeSort_of_le (f := fun row =>
        OrderDual.toDual (rowKey stored table column row).place)
        (fun a b => Cell.Key.order_bne_gt_iff) rows

/-- In an ascending order the keys never fall. -/
theorem pairwise_sorted (stored : StoredTable) (table : Table) (column : Text)
    (rows : List (Nat × StoredRow)) :
    (sorted stored table (some ⟨column, .ascending⟩) rows).Pairwise fun a b =>
      ((stored.cell a column).key (Statement.isNumeric table column)).place ≤
        ((stored.cell b column).key (Statement.isNumeric table column)).place :=
  pairwise_sorted_of stored table ⟨column, .ascending⟩ rows

end Database

/-! ### Cells of a text column -/

/-- Texts in ascending order, character by character. -/
def Text.Ascending (cells : List Text) : Prop :=
  cells.Pairwise fun a b => ¬ b < a

/-- A column of texts is ordered by what is given for its values. -/
theorem Cell.not_getD_lt_of_place_le {a b : Option Text}
    (h : ((Cell.ofValue a).key false).place ≤ ((Cell.ofValue b).key false).place) :
    ¬ b.getD [] < a.getD [] := by
  cases a with
  | none => exact List.not_lt_nil _
  | some s =>
      cases b with
      | none => simp [ofValue, key, Key.place] at h
      | some t => simpa [ofValue, key, Key.place] using h

namespace Database

variable {db : Database} {t : Table} {rows : List StoredRow} {c : Column} {query : Query}
  {found : List Row}

/-- A selection of one column gives one cell of each row. -/
theorem cells_of_select (ht : t.IsDefinable) (h : db.Registers (.ofTable t rows))
    (hc : c ∈ t.columns) (hFound : db.select t query [c.storageName] = .ok found) :
    found.filterMap List.head? =
      (sorted (.ofTable t rows) t query.orderBy (matching (.ofTable t rows) t query)).map
        fun row => (row.2.value? c.storageName).getD [] := by
  have hColumns : ∀ d ∈ [c], d ∈ t.columns := by
    intro d hd
    rwa [List.mem_singleton.mp hd]
  cases hStatement : Statement.select t query [c.storageName] with
  | error issue =>
      rw [select, hStatement] at hFound
      cases hFound
  | ok statement =>
      obtain ⟨hDeep, hWide⟩ := fits_of_select hFound
      have hSelect := select_eq ht h hColumns (List.cons_ne_nil _ _) hDeep hWide hStatement
      obtain rfl := Except.ok.inj (hFound.symm.trans hSelect)
      rw [List.filterMap_map]
      exact congrFun List.filterMap_eq_map _

/-- An ascending selection of a text column gives ascending cells. -/
theorem ascending_of_select (ht : t.IsDefinable) (h : db.Registers (.ofTable t rows))
    (hc : c ∈ t.columns) (hType : c.type ≠ .number)
    (hOrder : query.orderBy = some ⟨c.storageName, .ascending⟩)
    (hFound : db.select t query [c.storageName] = .ok found) :
    Text.Ascending (found.filterMap List.head?) := by
  have hNumeric : Statement.isNumeric t c.storageName = false := by
    rw [Statement.isNumeric, ht.columnByStorageName hc]
    simpa using hType
  have hRows := pairwise_sorted (.ofTable t rows) t c.storageName
    (matching (.ofTable t rows) t query)
  rw [Text.Ascending, cells_of_select ht h hc hFound, hOrder, List.pairwise_map]
  refine hRows.imp fun hPlace => ?_
  rw [hNumeric, StoredTable.cell_ofTable ht hc, StoredTable.cell_ofTable ht hc] at hPlace
  exact Cell.not_getD_lt_of_place_le hPlace

end Database

end TableTalk
