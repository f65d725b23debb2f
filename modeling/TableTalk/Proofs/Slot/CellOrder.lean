import TableTalk.Proofs.Query.BySegments
import TableTalk.Proofs.Slot.Coverage
import TableTalk.Proofs.Slot.StoredWindows
import TableTalk.Proofs.Store.Ordering

/-!
# The order of stored spans

Bounds are folded into spans that are sorted by start, and nothing checks that they are.
The spans come from cells in ascending order of their texts, and for whole seconds in
years of four digits that is enough (`Interval.start_le_of_not_stored_lt`): a text opens
with the start, and the slash after it sorts before all that could go on with a start, so
that a later start never comes first, whether its seconds are written or not.  Spans of
one start are ordered by their ends, which is of no account.

`Slot.sorted_of_ascending_cells` states this for any cells, and for the cells that a
database selects for a question for windows.
-/

namespace TableTalk

/-- The ends of the span are whole seconds in years of four digits. -/
structure Interval.SortsByText (i : Interval) : Prop where
  start_isWhole : i.start.IsWhole
  stop_isWhole : i.stop.IsWhole
  start_year : i.start.HasFourDigitYear
  stop_year : i.stop.HasFourDigitYear

/-- Of two spans the one whose text does not come later starts no later. -/
theorem Interval.start_le_of_not_stored_lt {i j : Interval} (hi : i.SortsByText)
    (hj : j.SortsByText) (h : ¬ j.stored < i.stored) : i.start ≤ j.start := by
  by_contra hStart
  have hLater : j.start < i.start := not_le.mp hStart
  apply h
  calc j.stored < i.start.stored :=
        Instant.append_slash_lt_stored hi.start_isWhole hj.start_year hi.start_year hLater
    _ ≤ i.stored := not_lt.mp (Text.not_append_lt _ _)

namespace Slot

variable {ranges : List Interval}

/-- Cells in ascending order are read as spans sorted by start. -/
theorem sorted_spans (hRanges : ∀ i ∈ ranges, i.SortsByText)
    (hCells : Text.Ascending (ranges.map Interval.stored)) :
    (ranges.map Interval.stored).mapM Occupied.ofStored =
        .ok (ranges.map fun i => Occupied.between i.start i.stop) ∧
      (ranges.map Interval.start).Pairwise (· ≤ ·) := by
  constructor
  · rw [List.mapM_map]
    exact Traversal.mapM_eq_ok_map fun i hi =>
      Occupied.ofStored_stored (hRanges i hi).start_isWhole (hRanges i hi).stop_isWhole
  · rw [Text.Ascending, List.pairwise_map] at hCells
    rw [List.pairwise_map]
    apply hCells.imp_of_mem
    intro i j hi hj hText
    exact Interval.start_le_of_not_stored_lt (hRanges i hi) (hRanges j hj) hText

theorem sorted_of_starts (h : (ranges.map Interval.start).Pairwise (· ≤ ·)) :
    Occupied.Sorted (ranges.map fun i => Occupied.between i.start i.stop) := by
  rw [List.pairwise_map] at h
  rw [Occupied.Sorted, List.pairwise_map]
  apply h.imp
  intro i j hStart
  show (i.start : WithBot Instant) ≤ (j.start : WithBot Instant)
  exact WithBot.coe_le_coe.mpr hStart

/-- Behind cells that hold such spans stands a list of spans. -/
theorem exists_ranges {cells : List Text}
    (h : ∀ cell ∈ cells, ∃ i : Interval, i.SortsByText ∧ i.stored = cell) :
    ∃ ranges : List Interval, (∀ i ∈ ranges, i.SortsByText) ∧
      ranges.map Interval.stored = cells := by
  induction cells with
  | nil => exact ⟨[], by simp, rfl⟩
  | cons cell cells ih =>
      obtain ⟨i, hi, rfl⟩ := h cell List.mem_cons_self
      obtain ⟨ranges, hRanges, rfl⟩ := ih fun x hx => h x (List.mem_cons_of_mem _ hx)
      exact ⟨i :: ranges, by simpa using ⟨hi, hRanges⟩, rfl⟩

/-- The request for windows in a plan, if there is one, is about a span column of the table. -/
def SlotFits (t : Table) (p : Plan) : Prop :=
  ∀ slot, p.slot = some slot → slot.column ∈ t.columns ∧ slot.column.type = .dateRange

theorem slotFits_of_compile {now : Instant} {t : Table} {args : Text} {plan : Plan}
    (h : Plan.compile now t args = .ok plan) : SlotFits t plan := by
  obtain ⟨hAccepted, -, rfl⟩ := Plan.compile_eq_ok_iff.mp h
  intro slot hSlot
  obtain ⟨s, hs, hRequest⟩ := List.mem_filterMap.mp (List.mem_of_head? hSlot)
  obtain ⟨hColumn, hType⟩ := (hAccepted.fine s hs).column_of_slot? hRequest
  exact ⟨List.mem_of_find?_eq_some hColumn, hType⟩

/-- **The order of texts is the order of starts.**  Cells that hold spans of whole seconds
in years of four digits and are in ascending order are all read, as spans whose starts
never fall.  Such an order is what a question for windows gets from the database: the
spans it hands on are sorted by start. -/
theorem sorted_of_ascending_cells :
    (∀ ranges : List Interval, (∀ i ∈ ranges, i.SortsByText) →
      Text.Ascending (ranges.map Interval.stored) →
      (ranges.map Interval.stored).mapM Occupied.ofStored =
          .ok (ranges.map fun i => Occupied.between i.start i.stop) ∧
        (ranges.map Interval.start).Pairwise (· ≤ ·)) ∧
    (∀ (db : Database) (t : Table) (rows : List StoredRow) (now : Instant) (args : Text)
      (plan : Plan) (slot : SlotRequest) (found : List Row), t.IsDefinable →
      db.Registers (.ofTable t rows) → Plan.compile now t args = .ok plan →
      plan.slot = some slot →
      db.select t (Reply.question plan) (Reply.columns plan) = .ok found →
      (∀ cell ∈ found.filterMap List.head?, ∃ i : Interval, i.SortsByText ∧ i.stored = cell) →
      ∃ spans, (found.filterMap List.head?).mapM Occupied.ofStored = .ok spans ∧
        Occupied.Sorted spans) := by
  refine ⟨fun ranges => sorted_spans, ?_⟩
  intro db t rows now args plan slot found ht hDb hPlan hSlot hFound hCells
  obtain ⟨hColumn, hType⟩ := slotFits_of_compile hPlan slot hSlot
  have hText : Text.Ascending (found.filterMap List.head?) := by
    unfold Reply.question Reply.columns at hFound
    rw [hSlot] at hFound
    exact Database.ascending_of_select ht hDb hColumn (by rw [hType]; decide) rfl hFound
  obtain ⟨ranges, hRanges, hStored⟩ := exists_ranges hCells
  rw [← hStored] at hText ⊢
  obtain ⟨hRead, hStarts⟩ := sorted_spans hRanges hText
  exact ⟨_, hRead, sorted_of_starts hStarts⟩

/-- The first day of October. -/
def octoberDay : Date :=
  ⟨2024, 10, 1, by decide⟩

/-- Two spans that start in one minute, the second of them half a minute later. -/
def octoberRanges : List Interval :=
  [⟨⟨octoberDay, 32400, 0, by decide, by decide⟩, ⟨octoberDay, 43200, 0, by decide, by decide⟩⟩,
    ⟨⟨octoberDay, 32430, 0, by decide, by decide⟩, ⟨octoberDay, 39600, 0, by decide, by decide⟩⟩]

/-- Rows that hold the spans, the later one first. -/
def octoberRows : List StoredRow :=
  octoberRanges.reverse.map fun i => .finished septemberNow ['7'] [(['l'], i.stored)]

theorem octoberRanges_sortsByText : ∀ i ∈ octoberRanges, i.SortsByText := by
  have hWhole : ∀ i ∈ octoberRanges, i.start.IsWhole ∧ i.stop.IsWhole := by
    unfold Instant.IsWhole
    decide
  have hYear : ∀ i ∈ octoberRanges, i.start.HasFourDigitYear ∧ i.stop.HasFourDigitYear := by
    unfold Instant.HasFourDigitYear
    decide
  exact fun i hi => ⟨(hWhole i hi).1, (hWhole i hi).2, (hYear i hi).1, (hYear i hi).2⟩

/-- The text of the first start is the beginning of that of the second, and it is the slash
that puts them in order; so they come out of a database that holds them the other way. -/
theorem sorted_of_ascending_cells_october :
    ((octoberRanges.map Interval.stored).mapM Occupied.ofStored =
        .ok (octoberRanges.map fun i => Occupied.between i.start i.stop) ∧
      (octoberRanges.map Interval.start).Pairwise (· ≤ ·)) ∧
    ∃ found, (cottageDb octoberRows).select cottage
        { orderBy := some ⟨cottageLets.storageName, .ascending⟩ } [cottageLets.storageName] =
        .ok found ∧
      ∃ spans, (found.filterMap List.head?).mapM Occupied.ofStored = .ok spans ∧
        Occupied.Sorted spans := by
  have hText : Text.Ascending (octoberRanges.map Interval.stored) := by
    unfold Text.Ascending
    decide +kernel
  have ht : cottage.IsDefinable := (Database.of_define define_cottage).1
  have hDb := registers_cottageDb octoberRows
  obtain ⟨found, hFound, hCells⟩ := Database.exists_select_column ht hDb (by decide +kernel)
    (List.mem_cons_of_mem _ List.mem_cons_self : cottageLets ∈ cottage.columns) .ascending
  have hPlan : Plan.compile septemberNow cottage " /L 1d".toList =
      .ok { slot := some ⟨cottageLets, 86400⟩ } := by
    decide +kernel
  have hStored : ∀ cell ∈ found.filterMap List.head?,
      ∃ i : Interval, i.SortsByText ∧ i.stored = cell := by
    intro cell hCell
    obtain ⟨r, hr, rfl⟩ := (hCells cell).mp hCell
    obtain ⟨i, hi, rfl⟩ := List.mem_map.mp hr
    exact ⟨i, octoberRanges_sortsByText i (List.mem_reverse.mp hi), rfl⟩
  exact ⟨sorted_of_ascending_cells.1 octoberRanges octoberRanges_sortsByText hText, found, hFound,
    sorted_of_ascending_cells.2 (cottageDb octoberRows) cottage octoberRows septemberNow _ _
      ⟨cottageLets, 86400⟩ found ht hDb hPlan rfl hFound hStored⟩

end Slot

end TableTalk
