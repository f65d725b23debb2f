import TableTalk.Proofs.Number.Numerals
import TableTalk.Proofs.Statement.Language
import TableTalk.Proofs.Store.Ordering
import TableTalk.Proofs.Text.Bytes

/-!
# Database engines

A store writes the statement of a selection, and a database engine runs it with the values
for its question marks (`Engine.select`).  The engine is not written here.  It is any that
does what the manual of the database says (`Engine.Documented`):

* It reads numbers off texts so that those of few digits are told apart.
* It answers a statement that it can read with rows that the statement asks for, up to its
  limits for the depth of a condition and the number of columns, of values and of bytes.
* It refuses a statement that is deeper or wider.

The engine that evaluates statements as they are read is one (`Engine.documented_builtin`).
-/

namespace TableTalk

/-! ### Limits -/

/-- The bytes of a cell. -/
def Cell.bytes : Cell → List ℕ
  | text t => t.bytes
  | _ => []

namespace Statement

/-- How many values may go with a statement. -/
def maxValues : ℕ := 32766

/-- How many bytes a statement, a value or a row may have. -/
def maxBytes : ℕ := 1000000000

namespace Selection

/-- The bytes of a row with its key, and sixteen more for each part and for the whole, which
is room for their lengths. -/
def rowBytes (q : Selection) (s : StoredTable) (row : ℕ × StoredRow) : ℕ :=
  ((q.key.cell s row :: q.columns.map (s.cell row)).flatMap Cell.bytes).length +
    16 * (q.columns.length + 2)

/-- A selection from a table, its statement and its values are within the limits. -/
structure Fits (q : Selection) (s : StoredTable) (statement : Text) (values : List Text) :
    Prop where
  depth_le : q.condition.depth ≤ maxDepth
  columns_le : q.columns.length ≤ maxColumns
  values_le : values.length ≤ maxValues
  statement_le : statement.bytes.length ≤ maxBytes
  value_le : ∀ v ∈ values, v.bytes.length ≤ maxBytes
  row_le : ∀ row ∈ s.numberedRows, q.rowBytes s row ≤ maxBytes

end Selection

end Statement

/-! ### Engines -/

/-- A database engine. -/
structure Engine where
  /-- The number that a text counts as, in units of the smallest positive value -/
  cast : Text → ℤ
  /-- The rows of a statement with values -/
  query : Database → Text → List Text → Except Failure (List (List Cell))

namespace Engine

open Statement

/-- Select with an engine: the statement is written and run, and cells are read as texts. -/
def select (E : Engine) (db : Database) (table : Table) (query : Query) (columns : List Text) :
    Except Failure (List Row) :=
  match Statement.select table query columns with
  | .error issue => .error (.definition issue)
  | .ok statement =>
      match E.query db statement (selectValues query) with
      | .error e => .error e
      | .ok rows => rows.mapM fun row => row.mapM Database.cellText

section Select

variable {E : Engine} {db : Database} {table : Table} {query : Query} {columns : List Text}
  {statement : Text}

theorem select_of_query_ok (hStatement : Statement.select table query columns = .ok statement)
    {rows : List (List Cell)}
    (hQuery : E.query db statement (selectValues query) = .ok rows) :
    E.select db table query columns = rows.mapM fun row => row.mapM Database.cellText := by
  unfold select
  simp only [hStatement, hQuery]

theorem select_of_query_error (hStatement : Statement.select table query columns = .ok statement)
    {e : Failure} (hQuery : E.query db statement (selectValues query) = .error e) :
    E.select db table query columns = .error e := by
  unfold select
  simp only [hStatement, hQuery]

end Select

/-- The engine does what the manual says. -/
structure Documented (E : Engine) : Prop where
  /-- Numbers of few digits compare as numbers do, whichever way they are written -/
  cast_le_cast_iff : ∀ {a b : Text} {x y : ℚ}, a.Opens x → b.Opens y → FewDigits x →
    FewDigits y → (E.cast a ≤ E.cast b ↔ x ≤ y)
  answers : ∀ {db : Database} {statement : Text} {values : List Text} {q : Selection}
    {s : StoredTable}, Selection.read? statement values = some q → db.named q.table = some s →
    q.Fits s statement values →
      ∃ rows, E.query db statement values = .ok rows ∧ q.Answers E.cast s rows
  refuses : ∀ {db : Database} {statement : Text} {values : List Text} {q : Selection},
    Selection.read? statement values = some q → q.TooLarge →
      ∃ e, E.query db statement values = .error e

/-! ### The engine that evaluates statements -/

end Engine

namespace Statement.Selection

variable (cast : Text → ℤ) (q : Selection) (s : StoredTable)

/-- The key of a row in the ordering. -/
def rowKey (row : ℕ × StoredRow) : Cell.Key :=
  q.key.key cast s row

/-- The rows whose condition is true. -/
def matching : List (ℕ × StoredRow) :=
  s.numberedRows.filter fun row => q.condition.truth cast s row == some true

/-- These rows in their order. -/
def chosen : List (ℕ × StoredRow) :=
  match q.direction with
  | .ascending => (q.matching cast s).mergeSort fun a b =>
      Cell.Key.order (q.rowKey cast s a) (q.rowKey cast s b) != .gt
  | .descending => (q.matching cast s).mergeSort fun a b =>
      Cell.Key.order (q.rowKey cast s b) (q.rowKey cast s a) != .gt

theorem perm_chosen : (q.chosen cast s).Perm (q.matching cast s) := by
  unfold chosen
  split
  · exact List.mergeSort_perm _ _
  · exact List.mergeSort_perm _ _

theorem pairwise_chosen : (q.chosen cast s).Pairwise (q.InOrder cast s) := by
  unfold chosen InOrder
  cases q.direction with
  | ascending =>
      have hSorted := Database.pairwise_mergeSort_of_le
        (f := fun row => (q.rowKey cast s row).place)
        (fun a b => Cell.Key.order_bne_gt_iff) (q.matching cast s)
      exact hSorted.imp fun hPlaces => Cell.Key.order_ne_gt_iff.mpr hPlaces
  | descending =>
      have hSorted := Database.pairwise_mergeSort_of_le
        (f := fun row => OrderDual.toDual (q.rowKey cast s row).place)
        (fun a b => Cell.Key.order_bne_gt_iff) (q.matching cast s)
      exact hSorted.imp fun hPlaces => Cell.Key.order_ne_gt_iff.mpr hPlaces

end Statement.Selection

namespace Engine

open Statement

/-- The engine that reads a statement and evaluates what it has read. -/
def builtin : Engine where
  cast := Text.real
  query db statement values :=
    match Selection.read? statement values with
    | none => .error (.database (.syntaxError statement) none)
    | some q =>
        if maxDepth < q.condition.depth then .error (.database (.tooDeep maxDepth) none)
        else
          match db.named q.table with
          | none => .error (.database (.noSuchTable q.table) none)
          | some s =>
              if maxColumns < q.columns.length then .error (.database .tooManyColumns none)
              else .ok ((q.chosen Text.real s).map fun row => q.columns.map (s.cell row))

variable {db : Database} {statement : Text} {values : List Text} {q : Selection} {s : StoredTable}

theorem query_builtin (hRead : Selection.read? statement values = some q)
    (hNamed : db.named q.table = some s) (hDeep : q.condition.depth ≤ maxDepth)
    (hWide : q.columns.length ≤ maxColumns) :
    builtin.query db statement values =
      .ok ((q.chosen Text.real s).map fun row => q.columns.map (s.cell row)) := by
  unfold builtin
  simp only [hRead, hNamed, not_lt.mpr hDeep, not_lt.mpr hWide, if_false]

theorem query_builtin_of_tooLarge (hRead : Selection.read? statement values = some q)
    (hLarge : q.TooLarge) : ∃ e, builtin.query db statement values = .error e := by
  unfold builtin
  simp only [hRead]
  split
  · exact ⟨_, rfl⟩
  · rename_i hDeep
    split
    · exact ⟨_, rfl⟩
    · rw [if_pos (hLarge.resolve_left hDeep)]
      exact ⟨_, rfl⟩

/-- **The engine that evaluates statements does what the manual says.** -/
theorem documented_builtin : builtin.Documented where
  cast_le_cast_iff := Text.real_le_real_iff
  answers hRead hNamed hFits :=
    ⟨_, query_builtin hRead hNamed hFits.depth_le hFits.columns_le, _,
      Selection.perm_chosen _ _ _, Selection.pairwise_chosen _ _ _, rfl⟩
  refuses := query_builtin_of_tooLarge

end Engine

end TableTalk
