import Mathlib.Data.List.Pairwise
import TableTalk.Proofs.Command.ByPairs
import TableTalk.Proofs.Store.Registered
import TableTalk.Proofs.Time.Forms

/-!
# Rows of adds

The row that an add makes is a list of values under names in ascending order, each the
stored form of some text for a column that messages may write (`Add.Built`).  Such a row
always fits its table: `Database.insert_eq` says that the insertion succeeds and that the
new last row holds exactly these values.  The reason is that every name is found again as
it was spelled, which the checks of the definition ensure (`columnNamed_ofTable`), and
that no name is written twice.

No other writing touches the rows of a registered data table (`Registers.of_insert`,
`Registers.of_addShortcut`, `Registers.of_grant`).
-/

namespace TableTalk

/-! ### Values of an add -/

namespace Add

variable {now : Instant} {table : Table} {values : RowValues}

/-- Values as adds make them for a table. -/
structure Built (now : Instant) (table : Table) (values : RowValues) : Prop where
  ascending : values.Pairwise fun a b => a.1 < b.1
  ofColumn : ∀ v ∈ values, ∃ column ∈ table.columns, column.storageName = v.1 ∧
    column.writable = true ∧ ∃ input, Value.normalize now column input = .ok v.2

theorem built_nil (now : Instant) (table : Table) : Built now table [] :=
  ⟨List.Pairwise.nil, fun _ hv => absurd hv List.not_mem_nil⟩

/-- One pair sets one value, or none. -/
theorem Built.put {p : Text × Text} {values' : RowValues} (h : Built now table values)
    (hPut : put now table values p = .ok values') : Built now table values' := by
  obtain ⟨column, value, hColumn, hValue, rfl⟩ := put_eq_ok_iff.mp hPut
  split
  · rename_i hWritable
    refine ⟨RowValues.ascending_set h.ascending, fun v hv => ?_⟩
    rcases RowValues.mem_of_mem_set hv with rfl | hv
    · exact ⟨column, List.mem_of_find?_eq_some hColumn, rfl, hWritable, p.2, hValue⟩
    · exact h.ofColumn v hv
  · exact h

/-- The values of every accepted add are built so. -/
theorem built_of_row {args : Text} (h : row now table args = .ok values) :
    Built now table values := by
  obtain ⟨ps, -, hFold⟩ := row_eq_ok_iff.mp h
  exact Traversal.foldlM_invariant (fun _ _ _ hBuilt hPut => hBuilt.put hPut)
    (built_nil now table) hFold

end Add

/-! ### Names of definable tables -/

namespace Table.IsDefinable

variable {t : Table} {c d : Column}

/-- Columns with the same name, up to case, are the same. -/
theorem eq_of_sameLetters (ht : t.IsDefinable) (hc : c ∈ t.columns) (hd : d ∈ t.columns)
    (hSame : Text.sameLetters c.storageName d.storageName = true) : c = d := by
  by_contra hNe
  have hApart := List.pairwise_map.mp ht.distinct
  have hSymmetric : Std.Symm fun a b : Column =>
      Text.sameLetters a.storageName b.storageName = false :=
    ⟨fun a b h => (Text.sameLetters_comm _ _).trans h⟩
  have hFalse := hApart.forall hc hd hNe
  exact Bool.false_ne_true (hFalse.symm.trans hSame)

theorem columnByStorageName (ht : t.IsDefinable) (hc : c ∈ t.columns) :
    t.columnByStorageName c.storageName = some c := by
  refine Traversal.find?_eq_some_of_unique hc (beq_self_eq_true _) fun d hd hName => ?_
  refine ht.eq_of_sameLetters hd hc ?_
  rw [beq_iff_eq.mp hName]
  exact Text.sameLetters_self _

/-- The database spells a column as its definition does. -/
theorem columnNamed_ofTable (ht : t.IsDefinable) (hc : c ∈ t.columns) (rows : List StoredRow) :
    (StoredTable.ofTable t rows).columnNamed c.storageName =
      some c.storageName := by
  refine Traversal.find?_eq_some_of_unique (List.mem_map_of_mem hc) (Text.sameLetters_self _) ?_
  intro name hName hSame
  obtain ⟨d, hd, rfl⟩ := List.mem_map.mp hName
  rw [ht.eq_of_sameLetters hd hc hSame]

/-- No case of a letter makes a column a bookkeeping column. -/
theorem lower_ne (ht : t.IsDefinable) (hc : c ∈ t.columns) (rest : Text) :
    Text.lower c.storageName ≠ '_' :: rest := by
  intro hLower
  obtain ⟨first, rest', hName, hFirst, -⟩ := List.map_eq_cons_iff.mp hLower
  refine ht.unreserved c hc rest' ?_
  rcases toLower_cases first with hSame | ⟨hLow, -, hShift⟩
  · rw [hName, ← hSame, hFirst]
  · -- What lowering moves is a letter, and it stays one.
    rw [hFirst] at hShift
    have hCode : ('_' : Char).toNat = 95 := rfl
    omega

end Table.IsDefinable

/-! ### Writing cells -/

/-- The row that is kept of an add. -/
def StoredRow.finished (stamp : Instant) (sender : Text) (values : RowValues) : StoredRow :=
  ⟨some Bookkeeping.complete, some sender, some stamp.stored, values⟩

/-- The row is one that an add to the table makes. -/
def StoredRow.OfAdd (t : Table) (r : StoredRow) : Prop :=
  ∃ now stamp sender values, Add.Built now t values ∧ r = .finished stamp sender values

namespace Database

variable {db db' : Database} {s : StoredTable} {t : Table} {rows : List StoredRow}

/-- A value of a column is kept under its name, if there was none before. -/
theorem writeCell_of_column (ht : t.IsDefinable) {c : Column} (hc : c ∈ t.columns)
    {row : StoredRow} (hNone : row.value? c.storageName = none) (rows : List StoredRow)
    (name value : Text) :
    writeCell (.ofTable t rows) name row (c.storageName, some value) =
      .ok { row with values := row.values ++ [(c.storageName, value)] } := by
  have hSaved : Text.lower c.storageName ≠ Bookkeeping.saved := ht.lower_ne hc _
  have hPhone : Text.lower c.storageName ≠ Bookkeeping.phone := ht.lower_ne hc _
  have hTimestamp : Text.lower c.storageName ≠ Bookkeeping.timestamp := ht.lower_ne hc _
  unfold writeCell
  simp only [ht.columnNamed_ofTable hc, hNone, hSaved, hPhone, hTimestamp]
  rfl

/-- Values of different columns are kept one after another. -/
theorem foldlM_writeCell (ht : t.IsDefinable) {values : RowValues} {row : StoredRow}
    (hColumns : ∀ v ∈ values, ∃ c ∈ t.columns, c.storageName = v.1)
    (hApart : values.Pairwise fun a b => a.1 < b.1)
    (hNone : ∀ v ∈ values, row.value? v.1 = none) (rows : List StoredRow) (name : Text) :
    (values.map fun v => (v.1, some v.2)).foldlM
        (writeCell (.ofTable t rows) name) row =
      .ok { row with values := row.values ++ values } := by
  induction values generalizing row with
  | nil =>
      rw [List.append_nil]
      rfl
  | cons v values ih =>
      obtain ⟨n, value⟩ := v
      obtain ⟨c, hc, rfl⟩ := hColumns _ List.mem_cons_self
      obtain ⟨hFirst, hRest⟩ := List.pairwise_cons.mp hApart
      have hWrite := writeCell_of_column ht hc (hNone _ List.mem_cons_self) rows name value
      rw [List.map_cons, Traversal.foldlM_cons_ok]
      refine ⟨_, hWrite, ?_⟩
      -- The names that are left are none of those written so far.
      have hNext : ∀ v ∈ values, StoredRow.value?
          { row with values := row.values ++ [(c.storageName, value)] } v.1 = none := by
        intro v hv
        have hOther : (v.1 == c.storageName) = false :=
          beq_eq_false_iff_ne.mpr (hFirst v hv).ne'
        have hBefore : row.values.lookup v.1 = none := hNone v (List.mem_cons_of_mem _ hv)
        simp [StoredRow.value?, List.lookup_append, hBefore, hOther]
      have hAll := ih (fun v hv => hColumns v (List.mem_cons_of_mem _ hv)) hRest hNext
      rw [List.append_assoc] at hAll
      exact hAll

/-- The cells of an add become one finished row. -/
theorem foldlM_writeCell_finished (ht : t.IsDefinable) {now stamp : Instant} {sender : Text}
    {values : RowValues} (hValues : Add.Built now t values) (rows : List StoredRow)
    (name : Text) :
    (values.map (fun v => (v.1, some v.2)) ++
        [(Bookkeeping.saved, some Bookkeeping.complete), (Bookkeeping.phone, some sender),
          (Bookkeeping.timestamp, some stamp.stored)]).foldlM
        (writeCell (.ofTable t rows) name) ⟨none, none, none, []⟩ =
      .ok (StoredRow.finished stamp sender values) := by
  have hColumns : ∀ v ∈ values, ∃ c ∈ t.columns, c.storageName = v.1 := by
    intro v hv
    obtain ⟨c, hc, hName, -⟩ := hValues.ofColumn v hv
    exact ⟨c, hc, hName⟩
  have hNone : ∀ v ∈ values, StoredRow.value? ⟨none, none, none, []⟩ v.1 = none :=
    fun _ _ => rfl
  rw [List.foldlM_append, foldlM_writeCell ht hColumns hValues.ascending hNone rows name]
  rfl

/-! ### Insertion -/

theorem checkNames_eq_ok {names : List Text} (h : ∀ n ∈ names, Statement.isName n = true) :
    checkNames names = .ok () := by
  induction names with
  | nil => rfl
  | cons n rest ih =>
      rw [checkNames, if_pos (h n List.mem_cons_self)]
      exact ih fun m hm => h m (List.mem_cons_of_mem _ hm)

/-- **Adds fit their table.**  The insertion of the values of an add succeeds, and the
table then ends with one more row that holds them. -/
theorem insert_eq (ht : t.IsDefinable) (h : db.Registers (.ofTable t rows))
    {now stamp : Instant} {values : RowValues} (hValues : Add.Built now t values)
    (sender : Text) :
    db.insert stamp t values sender = .ok (db.update t.id fun u =>
      { u with rows := u.rows ++ [StoredRow.finished stamp sender values] }) := by
  have hKnown : unknownName t values = none := by
    refine List.find?_eq_none.mpr fun n hn => ?_
    obtain ⟨v, hv, rfl⟩ := List.mem_map.mp hn
    obtain ⟨c, hc, hName, -⟩ := hValues.ofColumn v hv
    rw [← hName, ht.columnByStorageName hc]
    simp
  have hNames : checkNames (t.id :: values.map Prod.fst) = .ok () := by
    refine checkNames_eq_ok fun n hn => ?_
    rcases List.mem_cons.mp hn with rfl | hn
    · exact ht.id_isName
    · obtain ⟨v, hv, rfl⟩ := List.mem_map.mp hn
      obtain ⟨c, hc, hName, -⟩ := hValues.ofColumn v hv
      rw [← hName]
      exact ht.isName c hc
  have hNamed : db.named t.id = some (.ofTable t rows) := h.named
  unfold insert insertComplete append
  simp only [hKnown, hNames, hNamed, foldlM_writeCell_finished ht hValues]

/-- A row is written at the end of the table named. -/
theorem exists_of_append {name : Text} {cells : List CellWrite}
    (h : db.append name cells = .ok db') :
    ∃ row, db' = db.update name fun u => { u with rows := u.rows ++ [row] } := by
  unfold append at h
  split at h
  · split at h <;> cases h
  · split at h
    · cases h
    · exact ⟨_, (Except.ok.inj h).symm⟩

/-- So is a finished row. -/
theorem exists_of_insertComplete {stamp : Instant} {id phone : Text}
    {values : List (Text × Text)} (h : db.insertComplete stamp id values phone = .ok db') :
    ∃ row, db' = db.update id fun u => { u with rows := u.rows ++ [row] } := by
  unfold insertComplete at h
  split at h
  · cases h
  · exact exists_of_append h

/-- A row that is written into another table leaves this one alone. -/
theorem Registers.of_insertComplete {stamp : Instant} {id phone : Text}
    {values : List (Text × Text)} (h : db.Registers s)
    (hOther : Text.sameLetters s.id id = false)
    (hInsert : db.insertComplete stamp id values phone = .ok db') : db'.Registers s := by
  obtain ⟨row, rfl⟩ := exists_of_insertComplete hInsert
  have hUpdate := h.update id (· ++ [row])
  rwa [hOther] at hUpdate

theorem Registers.of_insert {stamp : Instant} {table : Table} {values : RowValues}
    {sender : Text} (h : db.Registers s) (hOther : Text.sameLetters s.id table.id = false)
    (hInsert : db.insert stamp table values sender = .ok db') : db'.Registers s := by
  unfold insert at hInsert
  split at hInsert
  · cases hInsert
  · exact h.of_insertComplete hOther hInsert

/-- A helper table that exists has no name of a registered data table. -/
theorem Registers.sameLetters_helper {id : Text} {kind : TableKind} {columns : List Text}
    (h : db.Registers s) (hEnsure : db.ensureHelper id kind columns = .ok db')
    (hKind : kind ≠ .data) : Text.sameLetters s.id id = false := by
  have hKept : db'.Registers s := h.of_ensureHelper hEnsure hKind
  obtain ⟨u, hu, rfl, hHelper⟩ := exists_of_ensureHelper hEnsure
  rw [Bool.eq_false_iff, Text.sameLetters_comm]
  intro hSame
  rw [hKept.id_unique u hu hSame, hKept.isData] at hHelper
  exact hKind hHelper.symm

theorem Registers.of_addShortcut {stamp : Instant} {id : Text} {shortcut : Shortcut}
    (h : db.Registers s) (hAdd : db.addShortcut stamp id shortcut = .ok db') :
    db'.Registers s := by
  unfold addShortcut at hAdd
  split at hAdd
  · cases hAdd
  · rename_i db₁ hEnsure
    exact (h.of_ensureHelper hEnsure (by decide)).of_insertComplete
      (h.sameLetters_helper hEnsure (by decide)) hAdd

theorem Registers.of_grant {stamp : Instant} {id phone password : Text}
    (h : db.Registers s) (hGrant : db.grant stamp id phone password = .ok db') :
    db'.Registers s := by
  unfold grant at hGrant
  split at hGrant
  · cases hGrant
  · rename_i db₁ hEnsure
    exact (h.of_ensureHelper hEnsure (by decide)).of_insertComplete
      (h.sameLetters_helper hEnsure (by decide)) hGrant

end Database

end TableTalk
