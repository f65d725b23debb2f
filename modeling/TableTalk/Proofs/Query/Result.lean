import Mathlib.Order.WithBot
import TableTalk.Proofs.Number.Numerals
import TableTalk.Proofs.Query.Found
import TableTalk.Proofs.Store.Rows
import TableTalk.Proofs.Text.Bytes

/-!
# What a query asks for

A structured query is given its meaning here without a statement.  A row satisfies a
constraint if it has a value in the column and one of the comparisons holds of it, by
numbers on a number column and by bytes on any other (`StoredRow.Satisfies`).  The result
holds the cells of the finished rows that satisfy every constraint, once each, in the order
they were written or in that of a column (`Query.Result`).

Which number a text counts as is an argument of all this, and a result depends on the order
of these numbers alone (`Query.Result.of_le_iff`).  On a table that could be defined the
comparisons of the store are these, with the numbers it reads texts as
(`StoredRow.satisfies_iff`).
-/

namespace TableTalk

/-- The comparison of two values in a line. -/
def Comparator.Relates {α : Type} [LinearOrder α] : Comparator → α → α → Prop
  | equals, a, b => a = b
  | lessThan, a, b => a < b
  | greaterThan, a, b => b < a
  | greaterThanEquals, a, b => b ≤ a
  | notEquals, a, b => a ≠ b

/-- The name is that of a number column. -/
def Table.HoldsNumbers (t : Table) (name : Text) : Prop :=
  ∃ c ∈ t.columns, c.storageName = name ∧ c.type = .number

section Meaning

variable {α : Type} [LinearOrder α] (number : Text → α)

/-- The comparison holds of a value in a column. -/
def Comparison.HoldsIn (t : Table) (column : Text) (x : Comparison) (value : Text) : Prop :=
  (t.HoldsNumbers column → x.comparator.Relates (number value) (number x.value)) ∧
    (¬ t.HoldsNumbers column → x.comparator.Relates value.bytes x.value.bytes)

/-- The row has a value in the column of the constraint, and a comparison holds of it. -/
def StoredRow.Satisfies (t : Table) (r : StoredRow) (c : Constraint) : Prop :=
  ∃ value, r.value? c.column = some value ∧
    ∃ x ∈ c.comparisons, x.HoldsIn number t c.column value

/-- The place of a row by a column of numbers; without a value it is before all others. -/
def StoredRow.numberPlace (r : StoredRow) (column : Text) : WithBot α :=
  match r.value? column with
  | some value => (number value : WithBot α)
  | none => ⊥

/-- The place of a row by any other column. -/
def StoredRow.bytesPlace (r : StoredRow) (column : Text) : WithBot (List ℕ) :=
  match r.value? column with
  | some value => (value.bytes : WithBot (List ℕ))
  | none => ⊥

/-- The key of a row in a column is not above that of another. -/
def StoredRow.NotAbove (t : Table) (column : Text) (a b : StoredRow) : Prop :=
  (t.HoldsNumbers column → a.numberPlace number column ≤ b.numberPlace number column) ∧
    (¬ t.HoldsNumbers column → a.bytesPlace column ≤ b.bytesPlace column)

/-- The ordering allows a row to come before another. -/
def OrderBy.Allows (t : Table) (o : OrderBy) (a b : StoredRow) : Prop :=
  match o.order with
  | .ascending => a.NotAbove number t o.column b
  | .descending => b.NotAbove number t o.column a

namespace Query

/-- The query chooses these of some numbered rows, in this order. -/
structure Chooses (t : Table) (query : Query) (rows chosen : List (ℕ × StoredRow)) : Prop where
  nodup : chosen.Nodup
  mem_iff : ∀ row, row ∈ chosen ↔
    row ∈ rows ∧ row.2.isComplete = true ∧ ∀ c ∈ query.constraints, row.2.Satisfies number t c
  /-- Without an ordering rows stay in the order they were written -/
  unordered : query.orderBy = none → chosen.Sublist rows
  ordered : ∀ o, query.orderBy = some o → chosen.Pairwise fun a b => o.Allows number t a.2 b.2

/-- The cells of the rows that the query chooses, with the empty text for a missing one. -/
def Result (t : Table) (query : Query) (columns : List Text) (rows : List (ℕ × StoredRow))
    (found : List Row) : Prop :=
  ∃ chosen, query.Chooses number t rows chosen ∧
    found = chosen.map fun row => columns.map fun n => (row.2.value? n).getD []

end Query

end Meaning

/-! ### Comparisons -/

theorem Comparator.admits_iff {α : Type} [LinearOrder α] (op : Comparator) {o : Ordering}
    {a b : α} (hLess : o = .lt ↔ a < b) (hSame : o = .eq ↔ a = b) :
    op.admits o = true ↔ op.Relates a b := by
  cases o with
  | lt =>
      have hlt := hLess.mp rfl
      cases op <;> simp [admits, Relates, hlt, hlt.ne, hlt.not_gt]
  | eq =>
      obtain rfl := hSame.mp rfl
      cases op <;> simp [admits, Relates]
  | gt =>
      have hgt : b < a :=
        lt_of_le_of_ne (not_lt.mp (mt hLess.mpr nofun)) (Ne.symm (mt hSame.mpr nofun))
      cases op <;> simp [admits, Relates, hgt, hgt.ne', hgt.not_gt, hgt.le]

/-- A comparison goes by the order of its values alone. -/
theorem Comparator.relates_congr {α β : Type} [LinearOrder α] [LinearOrder β] (op : Comparator)
    {a b : α} {x y : β} (hLe : a ≤ b ↔ x ≤ y) (hGe : b ≤ a ↔ y ≤ x) :
    op.Relates a b ↔ op.Relates x y := by
  have hEq : a = b ↔ x = y := by
    rw [le_antisymm_iff, le_antisymm_iff, hLe, hGe]
  cases op with
  | equals => exact hEq
  | notEquals => exact not_congr hEq
  | lessThan => exact lt_iff_lt_of_le_iff_le hGe
  | greaterThan => exact lt_iff_lt_of_le_iff_le hLe
  | greaterThanEquals => exact hGe

variable {t : Table}

/-- Names are unique, so that the first column of a name is the only one. -/
theorem Table.IsDefinable.isNumeric_iff (ht : t.IsDefinable) (n : Text) :
    Statement.isNumeric t n = true ↔ t.HoldsNumbers n := by
  constructor
  · intro h
    unfold Statement.isNumeric at h
    split at h
    · rename_i c hFound
      exact ⟨c, List.mem_of_find?_eq_some hFound, beq_iff_eq.mp (List.find?_some hFound :),
        beq_iff_eq.mp h⟩
    · cases h
  · rintro ⟨c, hc, rfl, hType⟩
    rw [Statement.isNumeric, ht.columnByStorageName hc]
    exact beq_iff_eq.mpr hType

/-- The key of a value, as a number or as it is. -/
def Cell.valueKey (cast : Text → ℤ) (numeric : Bool) : Option Text → Cell.Key
  | some value => if numeric then .number (cast value) else .text value
  | none => .missing

/-- A comparison holds if the keys of its values stand so. -/
theorem Comparison.admits_valueKey_iff (ht : t.IsDefinable) (cast : Text → ℤ) (n : Text)
    (x : Comparison) (value : Text) :
    x.comparator.admits (Cell.Key.order (Cell.valueKey cast (Statement.isNumeric t n) (some value))
        (Cell.valueKey cast (Statement.isNumeric t n) (some x.value))) = true ↔
      x.HoldsIn cast t n value := by
  unfold HoldsIn
  rw [← ht.isNumeric_iff]
  cases Statement.isNumeric t n with
  | true =>
      have hNumbers : x.comparator.admits (compare (cast value) (cast x.value)) = true ↔
          x.comparator.Relates (cast value) (cast x.value) :=
        x.comparator.admits_iff compare_lt_iff_lt compare_eq_iff_eq
      simpa [Cell.valueKey, Cell.Key.order] using hNumbers
  | false =>
      have hBytes : x.comparator.admits (Text.order value x.value) = true ↔
          x.comparator.Relates value.bytes x.value.bytes :=
        x.comparator.admits_iff (Text.order_eq_lt_iff.trans Text.bytes_lt_bytes_iff.symm)
          (Text.order_eq_eq_iff.trans Text.bytes_inj.symm)
      simpa [Cell.valueKey, Cell.Key.order] using hBytes

theorem Comparison.holds_iff (ht : t.IsDefinable) (n : Text) (x : Comparison) (value : Text) :
    x.holds (Statement.isNumeric t n) value = true ↔ x.HoldsIn Text.real t n value := by
  rw [← admits_valueKey_iff ht, holds, cellOrder]
  cases Statement.isNumeric t n <;> rfl

/-- A row satisfies a constraint if one of the comparisons holds of its value. -/
theorem StoredRow.satisfies_iff (ht : t.IsDefinable) (r : StoredRow) (c : Constraint) :
    r.Satisfies Text.real t c ↔
      ∃ value, r.value? c.column = some value ∧
        ∃ x ∈ c.comparisons, x.holds (Statement.isNumeric t c.column) value = true := by
  simp only [Satisfies, Comparison.holds_iff ht]

/-! ### Numbers of the same order -/

namespace Query

/-- The query compares the text as a number. -/
inductive Counts (t : Table) (query : Query) (rows : List (ℕ × StoredRow)) : Text → Prop
  | value {c : Constraint} {x : Comparison} (hc : c ∈ query.constraints)
      (hColumn : t.HoldsNumbers c.column) (hx : x ∈ c.comparisons) : Counts t query rows x.value
  | cell {c : Constraint} {row : ℕ × StoredRow} {v : Text} (hc : c ∈ query.constraints)
      (hColumn : t.HoldsNumbers c.column) (hRow : row ∈ rows)
      (hv : row.2.value? c.column = some v) : Counts t query rows v
  | key {o : OrderBy} {row : ℕ × StoredRow} {v : Text} (ho : query.orderBy = some o)
      (hColumn : t.HoldsNumbers o.column) (hRow : row ∈ rows)
      (hv : row.2.value? o.column = some v) : Counts t query rows v

variable {α β : Type} [LinearOrder α] [LinearOrder β] {f : Text → α} {g : Text → β}
  {query : Query} {rows : List (ℕ × StoredRow)} {row row' : ℕ × StoredRow}
  (h : ∀ a b, query.Counts t rows a → query.Counts t rows b → (f a ≤ f b ↔ g a ≤ g b))

include h

theorem satisfies_congr (hRow : row ∈ rows) {c : Constraint} (hc : c ∈ query.constraints) :
    row.2.Satisfies f t c ↔ row.2.Satisfies g t c := by
  refine exists_congr fun v => and_congr_right fun hv => ?_
  refine exists_congr fun x => and_congr_right fun hx => and_congr_left' ?_
  refine forall_congr' fun hColumn => ?_
  have hCell := Counts.cell hc hColumn hRow hv
  have hValue : query.Counts t rows x.value := .value hc hColumn hx
  exact x.comparator.relates_congr (h _ _ hCell hValue) (h _ _ hValue hCell)

theorem notAbove_congr (hRow : row ∈ rows) (hRow' : row' ∈ rows) {o : OrderBy}
    (ho : query.orderBy = some o) :
    row.2.NotAbove f t o.column row'.2 ↔ row.2.NotAbove g t o.column row'.2 := by
  refine and_congr_left' (forall_congr' fun hColumn => ?_)
  unfold StoredRow.numberPlace
  cases hv : row.2.value? o.column with
  | none => simp
  | some v =>
      cases hv' : row'.2.value? o.column with
      | none => simp
      | some v' => simpa using h _ _ (.key ho hColumn hRow hv) (.key ho hColumn hRow' hv')

/-- **A result depends on the order of numbers alone.** -/
theorem Result.of_le_iff {columns : List Text} {found : List Row}
    (hResult : query.Result f t columns rows found) : query.Result g t columns rows found := by
  obtain ⟨chosen, hChosen, rfl⟩ := hResult
  have hRows : ∀ row ∈ chosen, row ∈ rows := fun row hRow => ((hChosen.mem_iff row).mp hRow).1
  refine ⟨chosen, ⟨hChosen.nodup, fun row => ?_, hChosen.unordered, fun o ho => ?_⟩, rfl⟩
  · refine (hChosen.mem_iff row).trans (and_congr_right fun hRow => and_congr_right fun _ => ?_)
    exact forall₂_congr fun c hc => satisfies_congr h hRow hc
  · refine (hChosen.ordered o ho).imp_of_mem fun {a b} ha hb hAllowed => ?_
    unfold OrderBy.Allows at hAllowed ⊢
    cases hDirection : o.order with
    | ascending =>
        rw [hDirection] at hAllowed
        exact (notAbove_congr h (hRows a ha) (hRows b hb) ho).mp hAllowed
    | descending =>
        rw [hDirection] at hAllowed
        exact (notAbove_congr h (hRows b hb) (hRows a ha) ho).mp hAllowed

end Query

end TableTalk
