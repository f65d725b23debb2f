import TableTalk.Proofs.Slot.Bounds
import TableTalk.Proofs.Slot.Components

/-!
# The free-window reply is the complement of occupied time

`occupiedTime` says what is occupied without a list of spans or an order: the stored
ranges, what two-sided constraints leave out, and everything before the largest `>`
and from the smallest `<` on.  The reply names the components of what is left, in the
order of time, without the bounded ones that are too short
(`ofCells_eq_components_of_complement`).

The proof is in three steps.  The spans that cells and constraints give are sorted
and proper and cover the occupied time (`covered_of_applyConstraints`); merging keeps
this and separates them; and the windows between separated spans are the components
of the rest (`mem_windowsOf_iff_isComponent`).
-/

namespace TableTalk.FreeWindows

open Occupied
open Constraint (bounds)

/-- What stored ranges and constraints on the slot column occupy. -/
def occupiedTime (ranges : List Interval) (constraints : List Constraint) : Set ℤ :=
  {x | (∃ i ∈ ranges, x ∈ i.points) ∨
    (∃ c ∈ constraints, ∃ i, c.Excludes i ∧ x ∈ i.points) ∨
    (∃ t ∈ (bounds .greaterThan constraints).max?, x < t.rank) ∨
    ∃ t ∈ (bounds .lessThan constraints).min?, t.rank ≤ x}

/-- Neither a cell nor a constraint occupies anything. -/
def NothingOccupied (cells : List Text) (constraints : List Constraint) : Prop :=
  cells = [] ∧ ∀ c ∈ constraints, c.second = none ∧
    c.first.comparator ≠ .lessThan ∧ c.first.comparator ≠ .greaterThan

variable {minGap : Int} {cells : List Text} {ranges : List Interval}
  {constraints : List Constraint} {spans occupied : List Occupied} {text : Text}

/-! ### The spans of cells -/

theorem ofStored_ok_iff {cell : Text} {o : Occupied} :
    Occupied.ofStored cell = .ok o ↔
      ∃ i, Interval.ofStored? cell = some i ∧ o = between i.start i.stop := by
  unfold Occupied.ofStored
  cases hCell : Interval.ofStored? cell with
  | none => simp
  | some i => simp [eq_comm]

/-- The spans of decoded cells are their ranges. -/
theorem spans_eq_of_mapM (hCells : List.Forall₂ (fun cell i => Interval.ofStored? cell = some i)
    cells ranges) (h : cells.mapM Occupied.ofStored = .ok spans) :
    spans = ranges.map fun i => between i.start i.stop := by
  have hSpans := Traversal.mapM_eq_ok_iff.mp h
  clear h
  induction hCells generalizing spans with
  | nil =>
      cases hSpans
      rfl
  | cons hCell _ ih =>
      obtain ⟨o, rest, hFirst, hRest, rfl⟩ := List.forall₂_cons_left_iff.mp hSpans
      obtain ⟨i, hRead, rfl⟩ := ofStored_ok_iff.mp hFirst
      rw [hCell] at hRead
      obtain rfl := Option.some.inj hRead
      rw [List.map_cons, ih hRest]

theorem covered_ranges (ranges : List Interval) :
    covered (ranges.map fun i => between i.start i.stop) = {x | ∃ i ∈ ranges, x ∈ i.points} := by
  ext x
  simp [covered]

theorem sorted_ranges (hOrder : ranges.Pairwise fun a b => a.start ≤ b.start) :
    Sorted (ranges.map fun i => between i.start i.stop) :=
  List.pairwise_map.mpr (hOrder.imp fun h => WithBot.coe_le_coe.mpr h)

theorem proper_between {i : Interval} (h : i.start < i.stop) : Proper (between i.start i.stop) := by
  intro s hs e he
  obtain rfl := Option.some.inj hs
  obtain rfl := Option.some.inj he
  exact h

/-! ### The spans of constraints -/

theorem mem_sides_of_excludes {c : Constraint} {i : Interval} (hc : c ∈ constraints)
    (h : c.Excludes i) : between i.start i.stop ∈ sides constraints := by
  obtain ⟨second, hSecond, hSpan⟩ := ofSides_of_excludes h
  refine List.mem_filterMap.mpr ⟨c, hc, ?_⟩
  rw [hSecond, Option.bind_some, hSpan]
  rfl

theorem exists_of_mem_sides {o : Occupied}
    (hSides : ∀ c ∈ constraints, c.second ≠ none → ∃ i, c.Excludes i ∧ i.start < i.stop)
    (ho : o ∈ sides constraints) :
    ∃ c ∈ constraints, ∃ i, c.Excludes i ∧ i.start < i.stop ∧ o = between i.start i.stop := by
  obtain ⟨c, hc, hRead⟩ := List.mem_filterMap.mp ho
  obtain ⟨second, hSecond, hSpan⟩ := Option.bind_eq_some_iff.mp hRead
  obtain ⟨i, hExcludes, hLt⟩ := hSides c hc (hSecond ▸ Option.some_ne_none second)
  obtain ⟨second', hSecond', hSpan'⟩ := ofSides_of_excludes hExcludes
  obtain rfl : second = second' := Option.some.inj (hSecond.symm.trans hSecond')
  rw [hSpan'] at hSpan
  exact ⟨c, hc, i, hExcludes, hLt, (Option.some.inj hSpan).symm⟩

theorem covered_sides
    (hSides : ∀ c ∈ constraints, c.second ≠ none → ∃ i, c.Excludes i ∧ i.start < i.stop) :
    covered (sides constraints) = {x | ∃ c ∈ constraints, ∃ i, c.Excludes i ∧ x ∈ i.points} := by
  ext x
  constructor
  · rintro ⟨o, ho, hx⟩
    obtain ⟨c, hc, i, hExcludes, -, rfl⟩ := exists_of_mem_sides hSides ho
    exact ⟨c, hc, i, hExcludes, points_between i ▸ hx⟩
  · rintro ⟨c, hc, i, hExcludes, hx⟩
    exact ⟨_, mem_sides_of_excludes hc hExcludes, (points_between i).symm ▸ hx⟩

theorem covered_untilSpan (until? : Option Instant) :
    covered (untilSpan until?) = {x | ∃ t ∈ until?, x < t.rank} := by
  ext x
  cases until? <;> simp [untilSpan, mem_points]

theorem covered_fromSpan (from? : Option Instant) :
    covered (fromSpan from?) = {x | ∃ t ∈ from?, t.rank ≤ x} := by
  ext x
  cases from? <;> simp [fromSpan, mem_points]

/-! ### All occupied spans -/

/-- Cells and constraints cover the occupied time. -/
theorem covered_of_applyConstraints
    (hSides : ∀ c ∈ constraints, c.second ≠ none → ∃ i, c.Excludes i ∧ i.start < i.stop)
    (h : applyConstraints (ranges.map fun i => between i.start i.stop) constraints = .ok occupied) :
    covered occupied = occupiedTime ranges constraints := by
  rw [covered_perm (applyConstraints_perm h)]
  rw [covered_append, covered_append, covered_append, Set.union_comm,
    Set.union_comm (covered (sides constraints)), Set.union_assoc, covered_untilSpan,
    covered_fromSpan, covered_sides hSides, covered_ranges]
  rfl

theorem proper_of_applyConstraints (hProper : ∀ i ∈ ranges, i.start < i.stop)
    (hSides : ∀ c ∈ constraints, c.second ≠ none → ∃ i, c.Excludes i ∧ i.start < i.stop)
    (h : applyConstraints (ranges.map fun i => between i.start i.stop) constraints = .ok occupied) :
    ∀ o ∈ occupied, o.Proper := by
  intro o ho
  -- Spans without a start or without an end are proper for want of one.
  have hMem := (applyConstraints_perm h).mem_iff.mp ho
  simp only [List.mem_append] at hMem
  rcases hMem with (hUntil | hFrom) | hBetween | hRange
  · obtain ⟨t, -, rfl⟩ := Option.map_eq_some_iff.mp (Option.mem_toList.mp hUntil)
    intro s hs
    cases hs
  · obtain ⟨t, -, rfl⟩ := Option.map_eq_some_iff.mp (Option.mem_toList.mp hFrom)
    intro s _ e he
    cases he
  · obtain ⟨c, hc, i, -, hLt, rfl⟩ := exists_of_mem_sides hSides hBetween
    exact proper_between hLt
  · obtain ⟨i, hi, rfl⟩ := List.mem_map.mp hRange
    exact proper_between (hProper i hi)

theorem untilSpan_eq_nil_iff {until? : Option Instant} : untilSpan until? = [] ↔ until? = none := by
  cases until? <;> simp [untilSpan]

theorem fromSpan_eq_nil_iff {from? : Option Instant} : fromSpan from? = [] ↔ from? = none := by
  cases from? <;> simp [fromSpan]

/-- No value is named by a comparison of a kind that does not occur. -/
theorem bounds_eq_nil_iff {op : Comparator}
    (hReadable : ∀ c ∈ constraints, c.second = none →
      ∃ t, Instant.ofStored? c.first.value = some t) :
    bounds op constraints = [] ↔
      ∀ c ∈ constraints, c.second = none → c.first.comparator ≠ op := by
  unfold bounds
  rw [List.filterMap_eq_nil_iff]
  refine forall₂_congr fun c hc => ?_
  constructor
  · intro hNone hSecond hOp
    obtain ⟨t, ht⟩ := hReadable c hc hSecond
    rw [if_pos ⟨hSecond, hOp⟩, ht] at hNone
    cases hNone
  · intro hOther
    rw [if_neg fun hBoth => hOther hBoth.1 hBoth.2]

theorem sides_eq_nil_iff
    (hSides : ∀ c ∈ constraints, c.second ≠ none → ∃ i, c.Excludes i ∧ i.start < i.stop) :
    sides constraints = [] ↔ ∀ c ∈ constraints, c.second = none := by
  constructor
  · intro hNil c hc
    by_contra hSecond
    obtain ⟨i, hExcludes, -⟩ := hSides c hc hSecond
    exact List.ne_nil_of_mem (mem_sides_of_excludes hc hExcludes) hNil
  · intro hNone
    refine List.filterMap_eq_nil_iff.mpr fun c hc => ?_
    rw [hNone c hc]
    rfl

/-- There is no occupied span only when no cell and no constraint gives one. -/
theorem eq_nil_iff_nothingOccupied
    (hCells : List.Forall₂ (fun cell i => Interval.ofStored? cell = some i) cells ranges)
    (hSides : ∀ c ∈ constraints, c.second ≠ none → ∃ i, c.Excludes i ∧ i.start < i.stop)
    (h : applyConstraints (ranges.map fun i => between i.start i.stop) constraints = .ok occupied) :
    occupied = [] ↔ NothingOccupied cells constraints := by
  have hReadable := readable_of_applyConstraints h
  have hRanges : ranges = [] ↔ cells = [] := by
    rw [← List.length_eq_zero_iff, ← List.length_eq_zero_iff, hCells.length_eq]
  have hParts : occupied = [] ↔
      ((bounds .greaterThan constraints).max? = none ∧
        (bounds .lessThan constraints).min? = none) ∧ sides constraints = [] ∧ cells = [] := by
    rw [← List.perm_nil, (applyConstraints_perm h).congr_left, List.perm_nil,
      List.append_eq_nil_iff, List.append_eq_nil_iff, List.append_eq_nil_iff,
      untilSpan_eq_nil_iff, fromSpan_eq_nil_iff, List.map_eq_nil_iff, hRanges]
  rw [hParts, List.max?_eq_none_iff, List.min?_eq_none_iff, bounds_eq_nil_iff hReadable,
    bounds_eq_nil_iff hReadable, sides_eq_nil_iff hSides]
  constructor
  · rintro ⟨⟨hGreater, hLess⟩, hSingle, hNoCell⟩
    exact ⟨hNoCell, fun c hc => ⟨hSingle c hc, hLess c hc (hSingle c hc),
      hGreater c hc (hSingle c hc)⟩⟩
  · rintro ⟨hNoCell, hConstraints⟩
    exact ⟨⟨fun c hc _ => (hConstraints c hc).2.2, fun c hc _ => (hConstraints c hc).2.1⟩,
      fun c hc => (hConstraints c hc).1, hNoCell⟩

/-! ### The reply -/

/-- A reply comes from readable cells and constraints, and shows merged spans. -/
theorem ofCells_ok (h : ofCells minGap cells constraints = .ok text) :
    ∃ spans occupied, cells.mapM Occupied.ofStored = .ok spans ∧
      applyConstraints spans constraints = .ok occupied ∧
      text = windows minGap (merge occupied) := by
  unfold ofCells at h
  split at h
  · cases h
  · rename_i spans hCells
    split at h
    · cases h
    · rename_i occupied hApply
      exact ⟨spans, occupied, hCells, hApply, (Except.ok.inj h).symm⟩

/-- **The free-window reply is the complement of occupied time.**  Where nothing is
occupied it is the word for that.  Elsewhere it lists, in the order of time, the
components of the time that is left, the bounded ones only if they are long enough;
and every component is a window before, between or after instants. -/
theorem ofCells_eq_components_of_complement
    (hCells : List.Forall₂ (fun cell i => Interval.ofStored? cell = some i) cells ranges)
    (hProper : ∀ i ∈ ranges, i.start < i.stop)
    (hOrder : ranges.Pairwise fun a b => a.start ≤ b.start)
    (hSides : ∀ c ∈ constraints, c.second ≠ none → ∃ i, c.Excludes i ∧ i.start < i.stop)
    (h : ofCells minGap cells constraints = .ok text) :
    (NothingOccupied cells constraints → text = anytime) ∧
    (¬ NothingOccupied cells constraints → ∃ windows : List Window,
      text = Text.join [';'] (windows.map Window.text) ∧
      windows.Pairwise Window.Precedes ∧
      (∀ w, w ∈ windows ↔
        IsComponent (occupiedTime ranges constraints)ᶜ w.points ∧ w.IsTold minGap) ∧
      ∀ c, IsComponent (occupiedTime ranges constraints)ᶜ c → ∃ w : Window, w.points = c) := by
  obtain ⟨spans, occupied, hSpans, hApply, rfl⟩ := ofCells_ok h
  rw [spans_eq_of_mapM hCells hSpans] at hApply
  have hNothing := eq_nil_iff_nothingOccupied hCells hSides hApply
  have hSorted : Sorted occupied := sorted_of_applyConstraints (sorted_ranges hOrder) hApply
  have hSeparated : Separated (merge occupied) :=
    hSorted.separated_merge (proper_of_applyConstraints hProper hSides hApply)
  have hCovered : covered (merge occupied) = occupiedTime ranges constraints :=
    hSorted.covered_merge.trans (covered_of_applyConstraints hSides hApply)
  constructor
  · intro hNone
    rw [hNothing.mpr hNone]
    rfl
  · intro hSome
    have hMerged : merge occupied ≠ [] := fun hNil => hSome (hNothing.mp (merge_eq_nil_iff.mp hNil))
    rw [← hCovered]
    -- Filtering out short windows keeps the order and loses no component from the last part.
    refine ⟨(windowsOf (merge occupied)).filter fun w => w.IsTold minGap, windows_eq hMerged,
      (pairwise_windowsOf hSeparated).filter _, fun w => ?_, fun c hc => ?_⟩
    · rw [List.mem_filter, mem_windowsOf_iff_isComponent hMerged hSeparated, decide_eq_true_iff]
    · obtain ⟨w, -, hPoints⟩ := exists_mem_windowsOf_of_isComponent hMerged hSeparated hc
      exact ⟨w, hPoints⟩

/-- Two spans that overlap, and a third. -/
def juneCells : List Text :=
  ["2024-06-03/2024-06-06".toList, "2024-06-05/2024-06-08".toList, "2024-06-12/2024-06-13".toList]

/-- The ranges of `juneCells`. -/
def juneRanges : List Interval :=
  juneCells.filterMap Interval.ofStored?

/-- From the 15th to the 20th left out, the end of the span first, and all from the 28th on. -/
def juneConstraints : List Constraint :=
  [.either ['l'] ⟨.greaterThanEquals, "2024-06-20".toList⟩ ⟨.lessThan, "2024-06-15".toList⟩,
    .single ['l'] .lessThan "2024-06-28".toList]

/-- The two days between the third span and the 15th are too short for three. -/
def juneReply : Text :=
  ("before 2024-06-03T00:00;2024-06-08T00:00-2024-06-12T00:00;" ++
    "2024-06-20T00:00-2024-06-28T00:00").toList

theorem juneConstraints_excludes {c : Constraint} (hc : c ∈ juneConstraints)
    (hSecond : c.second ≠ none) : ∃ i, c.Excludes i ∧ i.start < i.stop := by
  rcases List.mem_pair.mp hc with rfl | rfl
  · exact ⟨⟨⟨⟨2024, 6, 15, by decide⟩, 0, 0, by decide, by decide⟩,
      ⟨⟨2024, 6, 20, by decide⟩, 0, 0, by decide, by decide⟩⟩,
      ⟨_, _, by decide +kernel, by decide +kernel, Or.inr ⟨rfl, rfl⟩⟩, by decide +kernel⟩
  · exact absurd rfl hSecond

theorem juneReply_eq_components_of_complement :
    ∃ windows : List Window,
      juneReply = Text.join [';'] (windows.map Window.text) ∧
      windows.Pairwise Window.Precedes ∧
      (∀ w, w ∈ windows ↔ IsComponent (occupiedTime juneRanges juneConstraints)ᶜ w.points ∧
        w.IsTold (3 * secondsPerDay * nanosPerSecond)) ∧
      ∀ c, IsComponent (occupiedTime juneRanges juneConstraints)ᶜ c → ∃ w : Window, w.points = c :=
  (ofCells_eq_components_of_complement (by decide +kernel : List.Forall₂ _ juneCells juneRanges)
    (by decide +kernel) (by decide +kernel) (fun _ => juneConstraints_excludes)
    (by decide +kernel)).2 fun h => absurd h.1 (List.cons_ne_nil _ _)

end TableTalk.FreeWindows
