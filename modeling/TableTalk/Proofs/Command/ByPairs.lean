import Mathlib.Data.Char
import Mathlib.Data.List.Induction
import Mathlib.Data.List.Lex
import TableTalk.Add
import TableTalk.Proofs.Traversal

/-!
# Rows from pairs

The row of an add is made by taking its pairs one after another, and the taking may stop at any
of them.  What comes out can be said of the pairs alone (`Add.row_by_pairs`).

* A row comes out if nothing is wrong with any pair (`Add.Fine`), and the cause of a refusal is
  that of the first pair with something wrong (`Add.Refused`).  Pairs of columns that are
  closed to messages count for this as all others do.
* Of the pairs that name one column, only the last is kept, and only if the column is open to
  messages (`Add.RowOf`).  The row has their values under the storage names of the columns,
  which are looked up by label.

Hence pairs of closed columns may be left out or change places with any others, and pairs of
different columns may change places with each other.

One pair sets one value (`Add.put_eq_ok_iff`).  Which values stand in the row after it depends
on the storage names being distinct, since a value replaces the one under the same name.
-/

namespace TableTalk

/-! ### Values under names -/

namespace RowValues

variable {name value : Text} {row : RowValues}

theorem mem_of_mem_set {v : Text × Text} (h : v ∈ set name value row) :
    v = (name, value) ∨ v ∈ row := by
  induction row with
  | nil => exact Or.inl (List.mem_singleton.mp h)
  | cons first rest ih =>
      rw [set] at h
      split at h
      · exact (List.mem_cons.mp h).imp_right (List.mem_cons_of_mem _)
      · split at h
        · exact List.mem_cons.mp h
        · rcases List.mem_cons.mp h with rfl | h
          · exact Or.inr List.mem_cons_self
          · exact (ih h).imp_right (List.mem_cons_of_mem _)

/-- Names stay in ascending order. -/
theorem ascending_set (h : row.Pairwise fun a b => a.1 < b.1) :
    (set name value row).Pairwise fun a b => a.1 < b.1 := by
  induction row with
  | nil => exact List.pairwise_singleton _ _
  | cons first rest ih =>
      obtain ⟨hFirst, hRest⟩ := List.pairwise_cons.mp h
      rw [set]
      split
      · rename_i hSame
        refine List.pairwise_cons.mpr ⟨fun v hv => ?_, hRest⟩
        rw [hSame]
        exact hFirst v hv
      · rename_i hOther
        split
        · rename_i hlt
          refine List.pairwise_cons.mpr ⟨fun v hv => ?_, h⟩
          rcases List.mem_cons.mp hv with rfl | hv
          · exact hlt
          · exact hlt.trans (hFirst v hv)
        · rename_i hge
          have hgt : first.1 < name := lt_of_le_of_ne (not_lt.mp hge) (Ne.symm hOther)
          refine List.pairwise_cons.mpr ⟨fun v hv => ?_, ih hRest⟩
          rcases mem_of_mem_set hv with rfl | hv
          · exact hgt
          · exact hFirst v hv

/-- A value replaces the one under its name and leaves all others. -/
theorem mem_set_iff (h : row.Pairwise fun a b => a.1 < b.1) {v : Text × Text} :
    v ∈ set name value row ↔ v = (name, value) ∨ v ∈ row ∧ v.1 ≠ name := by
  induction row with
  | nil => simp [set]
  | cons first rest ih =>
      obtain ⟨hFirst, hRest⟩ := List.pairwise_cons.mp h
      rw [set]
      split
      · rename_i hSame
        -- What follows the value that is replaced has greater names.
        have hLater : ∀ u ∈ rest, u.1 ≠ name := fun u hu => by
          rw [hSame]
          exact (hFirst u hu).ne'
        constructor
        · intro hv
          rcases List.mem_cons.mp hv with rfl | hv
          · exact Or.inl rfl
          · exact Or.inr ⟨List.mem_cons_of_mem _ hv, hLater v hv⟩
        · rintro (rfl | ⟨hv, hName⟩)
          · exact List.mem_cons_self
          · rcases List.mem_cons.mp hv with rfl | hv
            · exact absurd hSame.symm hName
            · exact List.mem_cons_of_mem _ hv
      · rename_i hOther
        split
        · rename_i hlt
          have hGreater : ∀ u ∈ first :: rest, u.1 ≠ name := by
            intro u hu
            rcases List.mem_cons.mp hu with rfl | hu
            · exact hlt.ne'
            · exact (hlt.trans (hFirst u hu)).ne'
          rw [List.mem_cons]
          exact or_congr_right ⟨fun hv => ⟨hv, hGreater v hv⟩, And.left⟩
        · rw [List.mem_cons, List.mem_cons, ih hRest]
          constructor
          · rintro (rfl | rfl | ⟨hv, hName⟩)
            · exact Or.inr ⟨Or.inl rfl, Ne.symm hOther⟩
            · exact Or.inl rfl
            · exact Or.inr ⟨Or.inr hv, hName⟩
          · rintro (rfl | ⟨rfl | hv, hName⟩)
            · exact Or.inr (Or.inl rfl)
            · exact Or.inl rfl
            · exact Or.inr (Or.inr ⟨hv, hName⟩)

end RowValues

namespace Add

/-! ### One pair -/

/-- Nothing is wrong with the pair: its label names a column, which accepts its value. -/
def Fine (now : Instant) (table : Table) (p : Text × Text) : Prop :=
  ∃ column value, table.columnByLabel p.1 = some column ∧
    Value.normalize now column p.2 = .ok value

/-- The causes for which a pair is refused.  The pairs before it play no part. -/
inductive Refused (now : Instant) (table : Table) (p : Text × Text) : Rejection → Prop
  | unknownColumn (hLabel : table.columnByLabel p.1 = none) :
      Refused now table p (.unknownColumn p.1)
  | invalidValue {column : Column} (hLabel : table.columnByLabel p.1 = some column)
      (hValue : Value.stored? now column p.2 = none) :
      Refused now table p (.invalidValue column.displayName p.2)

variable {now : Instant} {table : Table} {p : Text × Text} {ps ps' : List (Text × Text)}
  {row row' : RowValues} {args : Text} {cause : Rejection}

/-- A pair that is taken names a column, and sets its value if the column is open. -/
theorem put_eq_ok_iff : put now table row p = .ok row' ↔
    ∃ column value, table.columnByLabel p.1 = some column ∧
      Value.normalize now column p.2 = .ok value ∧
      row' = if column.writable then RowValues.set column.storageName value row else row := by
  constructor
  · intro h
    unfold put at h
    split at h
    · cases h
    · rename_i column hLabel
      split at h
      · cases h
      · rename_i value hValue
        refine ⟨column, value, hLabel, hValue, ?_⟩
        split at h
        · rename_i hOpen
          rw [if_pos hOpen]
          exact (Except.ok.inj h).symm
        · rename_i hClosed
          rw [if_neg hClosed]
          exact (Except.ok.inj h).symm
  · rintro ⟨column, value, hLabel, hValue, rfl⟩
    simp only [put, hLabel, hValue]
    split <;> rfl

theorem put_eq_error_iff : put now table row p = .error cause ↔ Refused now table p cause := by
  constructor
  · intro h
    unfold put at h
    split at h
    · rename_i hLabel
      obtain rfl := Except.error.inj h
      exact .unknownColumn hLabel
    · rename_i column hLabel
      split at h
      · rename_i e hValue
        obtain rfl := Except.error.inj h
        unfold Value.normalize at hValue
        split at hValue
        · cases hValue
        · rename_i hStored
          obtain rfl := Except.error.inj hValue
          exact .invalidValue hLabel hStored
      · split at h <;> cases h
  · rintro (⟨hLabel⟩ | ⟨hLabel, hValue⟩)
    · simp [put, hLabel]
    · simp [put, hLabel, Value.normalize, hValue]

/-- Pairs are taken to the end exactly if nothing is wrong with any of them. -/
theorem exists_foldlM_put_iff (row : RowValues) :
    (∃ row', ps.foldlM (put now table) row = .ok row') ↔ ∀ p ∈ ps, Fine now table p := by
  induction ps generalizing row with
  | nil => exact iff_of_true ⟨row, rfl⟩ fun p hp => absurd hp List.not_mem_nil
  | cons p ps ih =>
      rw [List.forall_mem_cons]
      constructor
      · rintro ⟨row', h⟩
        obtain ⟨next, hPut, hRest⟩ := Traversal.foldlM_cons_ok.mp h
        obtain ⟨column, value, hLabel, hValue, -⟩ := put_eq_ok_iff.mp hPut
        exact ⟨⟨column, value, hLabel, hValue⟩, (ih next).mp ⟨row', hRest⟩⟩
      · rintro ⟨⟨column, value, hLabel, hValue⟩, hFine⟩
        have hPut : put now table row p = .ok _ :=
          put_eq_ok_iff.mpr ⟨column, value, hLabel, hValue, rfl⟩
        obtain ⟨row', hRest⟩ := (ih _).mpr hFine
        exact ⟨row', Traversal.foldlM_cons_ok.mpr ⟨_, hPut, hRest⟩⟩

theorem row_eq_ok_iff : Add.row now table args = .ok row ↔
    ∃ ps, pairs args = .ok ps ∧ ps.foldlM (put now table) [] = .ok row := by
  unfold Add.row
  cases pairs args with
  | error cause => simp
  | ok ps => simp

theorem exists_row_iff : (∃ row, Add.row now table args = .ok row) ↔
    ∃ ps, pairs args = .ok ps ∧ ∀ p ∈ ps, Fine now table p := by
  simp only [row_eq_ok_iff, ← exists_foldlM_put_iff []]
  exact ⟨fun ⟨row, ps, hPairs, hFold⟩ => ⟨ps, hPairs, row, hFold⟩,
    fun ⟨ps, hPairs, row, hFold⟩ => ⟨row, ps, hPairs, hFold⟩⟩

/-- A row is refused as its pairs are, or for the first pair with something wrong. -/
theorem row_eq_error_iff : Add.row now table args = .error cause ↔
    pairs args = .error cause ∨ ∃ front p back, pairs args = .ok (front ++ p :: back) ∧
      (∀ q ∈ front, Fine now table q) ∧ Refused now table p cause := by
  unfold Add.row
  cases hPairs : pairs args with
  | error e => simp
  | ok ps =>
      simp only [Traversal.foldlM_eq_error_iff, put_eq_error_iff, reduceCtorEq, false_or,
        Except.ok.injEq]
      constructor
      · rintro ⟨front, p, back, row', hSplit, hFront, hRefused⟩
        exact ⟨front, p, back, hSplit, (exists_foldlM_put_iff []).mp ⟨row', hFront⟩, hRefused⟩
      · rintro ⟨front, p, back, hSplit, hFine, hRefused⟩
        obtain ⟨row', hFront⟩ := (exists_foldlM_put_iff []).mpr hFine
        exact ⟨front, p, back, row', hSplit, hFront, hRefused⟩

/-! ### The row of some pairs -/

/-- The pairs that name a column, in order. -/
def naming (table : Table) (column : Column) (ps : List (Text × Text)) : List (Text × Text) :=
  ps.filter fun p => table.columnByLabel p.1 = some column

/-- The row has, for each open column that some pair names, the stored form of the value of the
last such pair, under the storage name of the column, and it has nothing else. -/
structure RowOf (now : Instant) (table : Table) (ps : List (Text × Text)) (row : RowValues) :
    Prop where
  /-- No name occurs twice -/
  ascending : row.Pairwise fun a b => a.1 < b.1
  mem_iff : ∀ name value, (name, value) ∈ row ↔ ∃ column p,
    (naming table column ps).getLast? = some p ∧ column.writable = true ∧
      column.storageName = name ∧ Value.normalize now column p.2 = .ok value

theorem getLast?_naming_append_singleton (table : Table) (column : Column)
    (ps : List (Text × Text)) (p : Text × Text) :
    (naming table column (ps ++ [p])).getLast? =
      if table.columnByLabel p.1 = some column then some p
      else (naming table column ps).getLast? := by
  unfold naming
  by_cases hLabel : table.columnByLabel p.1 = some column
  · simp [List.filter_append, hLabel]
  · simp [List.filter_append, hLabel]

/-- A pair names a column of the table. -/
theorem mem_columns_of_getLast?_naming {column : Column}
    (h : (naming table column ps).getLast? = some p) : column ∈ table.columns := by
  have hNames := (List.mem_filter.mp (List.mem_of_getLast? h)).2
  exact List.mem_of_find?_eq_some (of_decide_eq_true hNames)

/-- One pair more replaces the value of the column that it names, if the column is open. -/
theorem RowOf.put (hDistinct : (table.columns.map Column.storageName).Nodup)
    (h : RowOf now table ps row) (hPut : put now table row p = .ok row') :
    RowOf now table (ps ++ [p]) row' := by
  obtain ⟨column, value, hLabel, hValue, rfl⟩ := put_eq_ok_iff.mp hPut
  have hMem : column ∈ table.columns := List.mem_of_find?_eq_some hLabel
  -- The last pair of every other column is the same as before.
  have hOther : ∀ c, c ≠ column →
      (naming table c (ps ++ [p])).getLast? = (naming table c ps).getLast? := by
    intro c hc
    rw [getLast?_naming_append_singleton, if_neg]
    rintro hSame
    exact hc (Option.some.inj (hSame.symm.trans hLabel))
  have hLast : (naming table column (ps ++ [p])).getLast? = some p := by
    rw [getLast?_naming_append_singleton, if_pos hLabel]
  by_cases hOpen : column.writable = true
  · rw [if_pos hOpen]
    refine ⟨RowValues.ascending_set h.ascending, fun name v => ?_⟩
    rw [RowValues.mem_set_iff h.ascending, h.mem_iff]
    constructor
    · rintro (hNew | ⟨⟨c, q, hq, hc, rfl, hKept⟩, hName⟩)
      · obtain ⟨rfl, rfl⟩ := Prod.mk.inj hNew
        exact ⟨column, p, hLast, hOpen, rfl, hValue⟩
      · refine ⟨c, q, ?_, hc, rfl, hKept⟩
        rw [hOther c fun hSame => hName (congrArg Column.storageName hSame), hq]
    · rintro ⟨c, q, hq, hc, rfl, hKept⟩
      by_cases hSame : c = column
      · subst hSame
        obtain rfl : p = q := Option.some.inj (hLast.symm.trans hq)
        obtain rfl : value = v := Except.ok.inj (hValue.symm.trans hKept)
        exact Or.inl rfl
      · rw [hOther c hSame] at hq
        refine Or.inr ⟨⟨c, q, hq, hc, rfl, hKept⟩, fun hName => hSame ?_⟩
        exact List.inj_on_of_nodup_map hDistinct (mem_columns_of_getLast?_naming hq) hMem hName
  · rw [if_neg hOpen]
    refine ⟨h.ascending, fun name v => ?_⟩
    rw [h.mem_iff]
    refine exists_congr fun c => exists_congr fun q => ?_
    by_cases hSame : c = column
    · subst hSame
      simp [hOpen]
    · rw [hOther c hSame]

theorem rowOf_of_foldlM (hDistinct : (table.columns.map Column.storageName).Nodup)
    (h : ps.foldlM (put now table) [] = .ok row) : RowOf now table ps row := by
  induction ps using List.reverseRecOn generalizing row with
  | nil =>
      obtain rfl : [] = row := Except.ok.inj h
      exact ⟨List.Pairwise.nil, fun name value => by simp [naming]⟩
  | append_singleton ps p ih =>
      obtain ⟨before, hBefore, hPut⟩ := Traversal.foldlM_append_singleton_ok.mp h
      exact (ih hBefore).put hDistinct hPut

/-- There is one row of some pairs. -/
theorem RowOf.unique (h : RowOf now table ps row) (h' : RowOf now table ps row') : row = row' :=
  Traversal.eq_of_ascending h.ascending h'.ascending fun (name, value) => by
    rw [h.mem_iff, h'.mem_iff]

/-- Values stand for the open columns that pairs name, and for no others. -/
theorem RowOf.exists_value_iff (hDistinct : (table.columns.map Column.storageName).Nodup)
    (h : RowOf now table ps row) (hFine : ∀ p ∈ ps, Fine now table p) {column : Column}
    (hColumn : column ∈ table.columns) :
    (∃ value, (column.storageName, value) ∈ row) ↔
      column.writable = true ∧ ∃ p ∈ ps, table.columnByLabel p.1 = some column := by
  constructor
  · rintro ⟨value, hMem⟩
    obtain ⟨c, p, hLast, hOpen, hName, -⟩ := (h.mem_iff _ _).mp hMem
    obtain rfl : c = column := List.inj_on_of_nodup_map hDistinct
      (mem_columns_of_getLast?_naming hLast) hColumn hName
    obtain ⟨hp, hLabel⟩ := List.mem_filter.mp (List.mem_of_getLast? hLast)
    exact ⟨hOpen, p, hp, of_decide_eq_true hLabel⟩
  · rintro ⟨hOpen, p, hp, hLabel⟩
    have hNames : p ∈ naming table column ps :=
      List.mem_filter.mpr ⟨hp, decide_eq_true hLabel⟩
    -- The last pair that names the column has a value for it as well.
    have hLast : (naming table column ps).getLast? = some _ :=
      List.getLast?_eq_some_getLast (List.ne_nil_of_mem hNames)
    obtain ⟨hMem, hSame⟩ := List.mem_filter.mp (List.mem_of_getLast? hLast)
    obtain ⟨c, value, hLabel', hValue⟩ := hFine _ hMem
    rw [of_decide_eq_true hSame] at hLabel'
    obtain rfl : column = c := Option.some.inj hLabel'
    exact ⟨value, (h.mem_iff _ _).mpr ⟨column, _, hLast, hOpen, rfl, hValue⟩⟩

/-! ### Pairs in another order -/

/-- The second list is made of the first by leaving out pairs of closed columns, and by letting
neighbours change places that do not name the same open column. -/
inductive Rearranged (table : Table) : List (Text × Text) → List (Text × Text) → Prop
  | refl (ps : List (Text × Text)) : Rearranged table ps ps
  | trans {ps qs rs : List (Text × Text)} :
      Rearranged table ps qs → Rearranged table qs rs → Rearranged table ps rs
  | remove (front : List (Text × Text)) {p : Text × Text} {column : Column}
      (back : List (Text × Text)) (hLabel : table.columnByLabel p.1 = some column)
      (hClosed : column.writable = false) : Rearranged table (front ++ p :: back) (front ++ back)
  | swap (front : List (Text × Text)) {p q : Text × Text} (back : List (Text × Text))
      (hApart : ∀ column, table.columnByLabel p.1 = some column →
        table.columnByLabel q.1 = some column → column.writable = false) :
      Rearranged table (front ++ p :: q :: back) (front ++ q :: p :: back)

theorem Rearranged.subset (h : Rearranged table ps ps') : ps' ⊆ ps := by
  induction h with
  | refl ps => exact List.Subset.refl ps
  | trans _ _ ih ih' => exact List.Subset.trans ih' ih
  | remove front back _ _ => exact fun q hq => by simp at hq ⊢; tauto
  | swap front back _ => exact fun r hr => by simp at hr ⊢; tauto

/-- The pairs of an open column stay in their order. -/
theorem Rearranged.naming_eq (h : Rearranged table ps ps') {column : Column}
    (hOpen : column.writable = true) : naming table column ps' = naming table column ps := by
  induction h with
  | refl ps => rfl
  | trans _ _ ih ih' => exact ih'.trans ih
  | remove front back hLabel hClosed =>
      rename_i p closed
      have hNot : ¬ table.columnByLabel p.1 = some column := by
        rintro hSame
        obtain rfl : closed = column := Option.some.inj (hLabel.symm.trans hSame)
        rw [hOpen] at hClosed
        cases hClosed
      simp [naming, List.filter_append, hNot]
  | swap front back hApart =>
      rename_i p q
      -- At most one of the two names the column.
      by_cases hp : table.columnByLabel p.1 = some column
      · have hq : ¬ table.columnByLabel q.1 = some column := by
          intro hq
          rw [hApart column hp hq] at hOpen
          cases hOpen
        simp [naming, List.filter_append, hp, hq]
      · simp [naming, List.filter_append, List.filter_cons, hp]

/-- The row of pairs is that of the rearranged pairs. -/
theorem RowOf.rearranged (h : RowOf now table ps row) (hPairs : Rearranged table ps ps') :
    RowOf now table ps' row := by
  refine ⟨h.ascending, fun name value => ?_⟩
  rw [h.mem_iff]
  refine exists_congr fun column => exists_congr fun p => ?_
  by_cases hOpen : column.writable = true
  · rw [hPairs.naming_eq hOpen]
  · simp [hOpen]

/-- **Rows by pairs.**  For a table whose columns have different storage names, a row comes out
of some arguments exactly if they are pairs with nothing wrong in any of them.  If not, the cause
is that of the pairs, or of the first pair with something wrong.  The row has one value for each
open column that some pair names, which is that of the last such pair, and no others.  It stays
the same if pairs of closed columns are left out, and if pairs change places with others that do
not name the same open column. -/
theorem row_by_pairs (now : Instant) (table : Table)
    (hDistinct : (table.columns.map Column.storageName).Nodup) (args : Text) :
    ((∃ row, Add.row now table args = .ok row) ↔
      ∃ ps, pairs args = .ok ps ∧ ∀ p ∈ ps, Fine now table p) ∧
    (∀ cause, Add.row now table args = .error cause ↔
      pairs args = .error cause ∨ ∃ front p back, pairs args = .ok (front ++ p :: back) ∧
        (∀ q ∈ front, Fine now table q) ∧ Refused now table p cause) ∧
    ∀ ps row, pairs args = .ok ps → Add.row now table args = .ok row →
      RowOf now table ps row ∧
      (∀ column ∈ table.columns, (∃ value, (column.storageName, value) ∈ row) ↔
        column.writable = true ∧ ∃ p ∈ ps, table.columnByLabel p.1 = some column) ∧
      ∀ args' ps', pairs args' = .ok ps' → Rearranged table ps ps' →
        Add.row now table args' = .ok row := by
  refine ⟨exists_row_iff, fun cause => row_eq_error_iff, fun ps row hPairs hRow => ?_⟩
  obtain ⟨qs, hSame, hFold⟩ := row_eq_ok_iff.mp hRow
  obtain rfl : ps = qs := Except.ok.inj (hPairs.symm.trans hSame)
  have hFine : ∀ p ∈ ps, Fine now table p := (exists_foldlM_put_iff []).mp ⟨row, hFold⟩
  have hRowOf : RowOf now table ps row := rowOf_of_foldlM hDistinct hFold
  refine ⟨hRowOf, fun column hc => hRowOf.exists_value_iff hDistinct hFine hc, ?_⟩
  intro args' ps' hPairs' hRearranged
  -- The other pairs are among these, so that they make a row too.
  obtain ⟨row', hFold'⟩ := (exists_foldlM_put_iff []).mpr fun p hp =>
    hFine p (hRearranged.subset hp)
  obtain rfl : row = row' :=
    (hRowOf.rearranged hRearranged).unique (rowOf_of_foldlM hDistinct hFold')
  exact row_eq_ok_iff.mpr ⟨ps', hPairs', hFold'⟩

/-- A table of goods, whose numbers messages may not write. -/
def goods : Table :=
  ⟨['g', 'o', 'o', 'd', 's'], ['g', 'o', 'o', 'd', 's'],
    [{ storageName := ['n'], displayName := ['N'], type := .text },
      { storageName := ['k'], displayName := ['K'], type := .number },
      { storageName := ['i'], displayName := ['I'], type := .number, writable := false }], none⟩

def goodsArguments : Text :=
  ['+', 'N', ' ', 'E', 'l', 'm', ' ', '+', 'I', ' ', '7', ' ', '+', 'K', ' ', '3', ' ', '+', 'N',
    ' ', 'O', 'a', 'k']

def goodsPairs : List (Text × Text) :=
  [(['N'], ['E', 'l', 'm']), (['I'], ['7']), (['K'], ['3']), (['N'], ['O', 'a', 'k'])]

/-- The number is left out, and the weight is told first. -/
def goodsPairsAgain : List (Text × Text) :=
  [(['K'], ['3']), (['N'], ['E', 'l', 'm']), (['N'], ['O', 'a', 'k'])]

/-- Arguments with these pairs. -/
def goodsArgumentsAgain : Text :=
  ['+', 'K', ' ', '3', ' ', '+', 'N', ' ', 'E', 'l', 'm', ' ', '+', 'N', ' ', 'O', 'a', 'k']

theorem rearranged_goods : Rearranged goods goodsPairs goodsPairsAgain := by
  have hRemove : Rearranged goods goodsPairs
      ([(['N'], ['E', 'l', 'm'])] ++ [(['K'], ['3']), (['N'], ['O', 'a', 'k'])]) :=
    .remove [(['N'], ['E', 'l', 'm'])] _ rfl rfl
  have hSwap : Rearranged goods
      ([] ++ (['N'], ['E', 'l', 'm']) :: (['K'], ['3']) :: [(['N'], ['O', 'a', 'k'])])
      goodsPairsAgain :=
    .swap _ _ fun column hName hWeight => absurd (hName.trans hWeight.symm) (by decide)
  exact hRemove.trans hSwap

/-- Of the two names the last is kept, next to the weight. -/
theorem row_by_pairs_goods :
    (goods.columns.map Column.storageName).Nodup ∧ pairs goodsArguments = .ok goodsPairs ∧
    pairs goodsArgumentsAgain = .ok goodsPairsAgain ∧
    Add.row (.midnight ⟨2026, 3, 2, by decide⟩) goods goodsArguments =
      .ok [(['k'], ['3']), (['n'], ['O', 'a', 'k'])] ∧
    RowOf (.midnight ⟨2026, 3, 2, by decide⟩) goods goodsPairs
      [(['k'], ['3']), (['n'], ['O', 'a', 'k'])] ∧
    Add.row (.midnight ⟨2026, 3, 2, by decide⟩) goods goodsArgumentsAgain =
      .ok [(['k'], ['3']), (['n'], ['O', 'a', 'k'])] := by
  have hDistinct : (goods.columns.map Column.storageName).Nodup := by decide
  have hRow : Add.row (.midnight ⟨2026, 3, 2, by decide⟩) goods goodsArguments =
      .ok [(['k'], ['3']), (['n'], ['O', 'a', 'k'])] := by decide +kernel
  obtain ⟨-, -, hRows⟩ := row_by_pairs (.midnight ⟨2026, 3, 2, by decide⟩) goods hDistinct
    goodsArguments
  obtain ⟨hRowOf, -, hRearranged⟩ := hRows goodsPairs _ rfl hRow
  exact ⟨hDistinct, rfl, rfl, hRow, hRowOf,
    hRearranged goodsArgumentsAgain goodsPairsAgain rfl rearranged_goods⟩

end Add

end TableTalk
