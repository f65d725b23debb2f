import TableTalk.Message.Reply
import TableTalk.Proofs.Traversal

/-!
# Row replies that are read back

A reply to a query for rows separates rows by semicolons, the cells of a row by commas, and
each cell from its label by a colon.  Labels have none of the three and cells neither of the
first two, colons in cells are allowed: the first colon of a piece ends the label.  Then the
reply is uniquely readable.  `Reply.readBack` cuts it at the separators, and
`Reply.readBack_rows` says that this gives the rows that are shown, cell by cell.

The limit cuts whole rows off the end of the list, so that nothing of a row past it is in the
text.  The text for no rows has no colon and is therefore none of these.
-/

namespace TableTalk

/-- A character that is in no piece and not in the separator is not in the joined text. -/
theorem Text.not_mem_join {sep : Text} {pieces : List Text} {c : Char} (hSep : c ∉ sep)
    (h : ∀ piece ∈ pieces, c ∉ piece) : c ∉ Text.join sep pieces := by
  cases pieces with
  | nil => exact List.not_mem_nil
  | cons first rest =>
      rw [Text.join_cons]
      intro hc
      rcases List.mem_append.mp hc with hc | hc
      · exact h first List.mem_cons_self hc
      · obtain ⟨piece, hPiece, hc⟩ := List.mem_flatMap.mp hc
        rcases List.mem_append.mp hc with hc | hc
        · exact hSep hc
        · exact h piece (List.mem_cons_of_mem first hPiece) hc

namespace Reply

variable {columns : List Column} {found : List Row} {values : Row} {limit : Nat}

/-- The cells of a row with the labels they are printed under. -/
def labelled (columns : List Column) (values : Row) : List (Text × Text) :=
  (columns.map Column.replyLabel).zip values

/-- Labels and cells of the rows in a reply: rows end at semicolons, cells at commas, and a
label at its first colon. -/
def readBack (t : Text) : Option (List (List (Text × Text))) :=
  (t.splitOn ';').mapM fun part => (part.splitOn ',').mapM fun piece =>
    Text.cutAt (· == ':') piece

/-- A row has one cell for each column, and no separator of rows or cells in any of them. -/
structure RowReadable (columns : List Column) (values : Row) : Prop where
  length_eq : values.length = columns.length
  comma : ∀ value ∈ values, ',' ∉ value
  semicolon : ∀ value ∈ values, ';' ∉ value

/-- The labels hold no separator, and there are columns and rows to print. -/
structure Readable (columns : List Column) (found : List Row) : Prop where
  columns_ne_nil : columns ≠ []
  found_ne_nil : found ≠ []
  colon : ∀ column ∈ columns, ':' ∉ column.replyLabel
  comma : ∀ column ∈ columns, ',' ∉ column.replyLabel
  semicolon : ∀ column ∈ columns, ';' ∉ column.replyLabel
  rows_readable : ∀ values ∈ found, RowReadable columns values

/-! ### Cells -/

/-- A cell is read back at the first colon, whatever colons are in its value. -/
theorem cutAt_cell {column : Column} (hLabel : ':' ∉ column.replyLabel) (value : Text) :
    Text.cutAt (· == ':') (cell column value) = some (column.replyLabel, value) := by
  refine Text.cutAt_append_cons (fun c hc => ?_) (beq_self_eq_true ':')
  rw [beq_eq_false_iff_ne]
  rintro rfl
  exact hLabel hc

theorem not_mem_cell {column : Column} {value : Text} {c : Char} (hColon : c ≠ ':')
    (hLabel : c ∉ column.replyLabel) (hValue : c ∉ value) : c ∉ cell column value := by
  intro hc
  rcases List.mem_append.mp hc with hc | hc
  · exact hLabel hc
  · rcases List.mem_cons.mp hc with rfl | hc
    · exact hColon rfl
    · exact hValue hc

/-- What is in no label and no value is in no cell of the row. -/
theorem not_mem_of_mem_cells {c : Char} (hColon : c ≠ ':')
    (hLabels : ∀ column ∈ columns, c ∉ column.replyLabel) (hValues : ∀ value ∈ values, c ∉ value) :
    ∀ piece ∈ List.zipWith cell columns values, c ∉ piece := by
  intro piece hPiece
  rw [← List.map_uncurry_zip_eq_zipWith] at hPiece
  obtain ⟨⟨column, value⟩, hPair, rfl⟩ := List.mem_map.mp hPiece
  obtain ⟨hColumn, hValue⟩ := List.of_mem_zip hPair
  exact not_mem_cell hColon (hLabels column hColumn) (hValues value hValue)

/-! ### Rows -/

namespace Readable

variable (h : Readable columns found)
include h

/-- The cells of a row are what stands between its commas. -/
theorem splitOn_row (hValues : values ∈ found) :
    (row columns values).splitOn ',' = List.zipWith cell columns values := by
  refine List.splitOn_intercalate ',' ?_ ?_
  · exact not_mem_of_mem_cells (by decide) h.comma (h.rows_readable values hValues).comma
  · have hCells : values ≠ [] := by
      rintro rfl
      exact h.columns_ne_nil (List.length_eq_zero_iff.mp (h.rows_readable [] hValues).length_eq.symm)
    rw [Ne, List.zipWith_eq_nil_iff, not_or]
    exact ⟨h.columns_ne_nil, hCells⟩

/-- Each cell of a row is read back under its label. -/
theorem mapM_cells :
    (List.zipWith cell columns values).mapM (fun piece => Text.cutAt (· == ':') piece) =
      some (labelled columns values) := by
  rw [← List.map_uncurry_zip_eq_zipWith, List.mapM_map, labelled, List.zip_map_left]
  refine Traversal.mapM_eq_pure_map fun p hp => ?_
  exact cutAt_cell (h.colon p.1 (List.of_mem_zip hp).1) p.2

theorem semicolon_not_mem_row (hValues : values ∈ found) : ';' ∉ row columns values :=
  Text.not_mem_join (by decide)
    (not_mem_of_mem_cells (by decide) h.semicolon (h.rows_readable values hValues).semicolon)

/-- The rows of a reply are what stands between its semicolons. -/
theorem splitOn_rows (hLimit : 1 ≤ limit) :
    (rows columns found limit).splitOn ';' = (found.take limit).map (row columns) := by
  unfold rows
  rw [if_neg (mt List.isEmpty_iff.mp h.found_ne_nil)]
  refine List.splitOn_intercalate ';' ?_ ?_
  · intro part hPart
    obtain ⟨values, hValues, rfl⟩ := List.mem_map.mp hPart
    exact h.semicolon_not_mem_row (List.mem_of_mem_take hValues)
  · rw [Ne, List.map_eq_nil_iff, List.take_eq_nil_iff, not_or]
    exact ⟨by omega, h.found_ne_nil⟩

theorem readBack_rows (hLimit : 1 ≤ limit) :
    readBack (rows columns found limit) = some ((found.take limit).map (labelled columns)) := by
  rw [readBack, h.splitOn_rows hLimit, List.mapM_map]
  refine Traversal.mapM_eq_pure_map fun values hValues => ?_
  rw [Function.comp_apply, h.splitOn_row (List.mem_of_mem_take hValues)]
  exact h.mapM_cells

/-- The cells of the shown rows are read off their labelled form. -/
theorem map_labelled :
    ((found.take limit).map (labelled columns)).map (List.map Prod.snd) = found.take limit := by
  rw [List.map_map]
  refine (List.map_congr_left fun values hValues => ?_).trans (List.map_id _)
  have hRow := h.rows_readable values (List.mem_of_mem_take hValues)
  exact List.map_snd_zip (by rw [List.length_map, hRow.length_eq])

end Readable

/-! ### Replies -/

/-- The text for no rows is not read back as any rows. -/
theorem readBack_noRows : readBack noRows = none := by
  decide +kernel

/-- **Row replies are read back.**  For columns whose labels hold no separator and rows with
one cell for each of them, free of commas and semicolons, and with room for a row: cutting the
reply gives the rows that are shown, each as the labels with its cells.  The rows past the
limit are not in the text, two such replies with the same text show the same rows, and none is
the text for no rows. -/
theorem rows_read_back (h : Readable columns found) (hLimit : 1 ≤ limit) :
    readBack (rows columns found limit) = some ((found.take limit).map (labelled columns)) ∧
    (∀ found', found'.take limit = found.take limit →
      rows columns found' limit = rows columns found limit) ∧
    (∀ columns' found' limit', Readable columns' found' → 1 ≤ limit' →
      rows columns' found' limit' = rows columns found limit →
        found'.take limit' = found.take limit) ∧
    rows columns found limit ≠ noRows := by
  have hRead := h.readBack_rows hLimit
  refine ⟨hRead, fun found' hSame => ?_, fun columns' found' limit' h' hLimit' hText => ?_,
    fun hText => ?_⟩
  · -- Rows that begin alike are not empty either.
    have hShown : found.take limit ≠ [] := by
      rw [Ne, List.take_eq_nil_iff, not_or]
      exact ⟨by omega, h.found_ne_nil⟩
    have hSome' : found' ≠ [] := by
      rintro rfl
      exact hShown (by simpa using hSame.symm)
    unfold rows
    rw [if_neg (mt List.isEmpty_iff.mp h.found_ne_nil), if_neg (mt List.isEmpty_iff.mp hSome'),
      hSame]
  · have hRead' := h'.readBack_rows hLimit'
    rw [hText, hRead, Option.some.injEq] at hRead'
    rw [← h.map_labelled, ← h'.map_labelled, hRead']
  · rw [hText, readBack_noRows] at hRead
    cases hRead

/-- Columns with labels of their own and in place of names. -/
def pierColumns : List Column :=
  [{ storageName := ['n'], displayName := "Name".toList, replyName := some ['n'], type := .text },
    { storageName := ['b'], displayName := "Beds".toList, type := .number }]

/-- Three rows with an empty cell and a cell that has colons. -/
def pierRows : List Row :=
  [["Elm: back".toList, ['2']], [[], ['4']], ["Ash".toList, ":".toList]]

theorem readable_pierRows : Readable pierColumns pierRows where
  columns_ne_nil := by decide
  found_ne_nil := by decide
  colon := by decide
  comma := by decide
  semicolon := by decide
  rows_readable := by
    have hLength : ∀ values ∈ pierRows, values.length = pierColumns.length := by decide
    have hComma : ∀ values ∈ pierRows, ∀ value ∈ values, ',' ∉ value := by decide
    have hSemicolon : ∀ values ∈ pierRows, ∀ value ∈ values, ';' ∉ value := by decide
    exact fun values hValues =>
      ⟨hLength values hValues, hComma values hValues, hSemicolon values hValues⟩

/-- Two of the three rows are shown and read back. -/
theorem rows_read_back_pier :
    Readable pierColumns pierRows ∧ 1 ≤ 2 ∧
    rows pierColumns pierRows 2 = "n:Elm: back,Beds:2;n:,Beds:4".toList ∧
    readBack "n:Elm: back,Beds:2;n:,Beds:4".toList =
      some [[(['n'], "Elm: back".toList), ("Beds".toList, ['2'])],
        [(['n'], []), ("Beds".toList, ['4'])]] ∧
    (∀ found', found'.take 2 = pierRows.take 2 →
      rows pierColumns found' 2 = "n:Elm: back,Beds:2;n:,Beds:4".toList) ∧
    "n:Elm: back,Beds:2;n:,Beds:4".toList ≠ noRows := by
  have hText : rows pierColumns pierRows 2 = "n:Elm: back,Beds:2;n:,Beds:4".toList := by decide
  have hLimit : 1 ≤ 2 := by decide
  obtain ⟨hRead, hSame, -, hNotNone⟩ := rows_read_back readable_pierRows hLimit
  rw [hText] at hRead hSame hNotNone
  exact ⟨readable_pierRows, hLimit, hText, hRead, hSame, hNotNone⟩

end Reply

end TableTalk
