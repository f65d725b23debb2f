import TableTalk.Slot.FreeWindows
import TableTalk.Proofs.Slot.Bounds
import TableTalk.Proofs.Query.TimeFilters

/-!
# Filters that bound nothing

Of the filters on a slot column only `<`, and `>` with an instant, bound the time that is
asked about.  The others compare starts or whole cells and are of no use to free windows,
which are meant to pass them over.

The value of a comparison is read before its kind is looked at, and it is read as an
instant.  So a comparison with an instant is passed over, but one with a whole span is
not: the first filter `=` or `!` with a span ends the query with a complaint about its own
value, as if it were a stored cell.  `FreeWindows.ofCells_of_filters` tells the two cases
apart for every list of filters on a span column.
-/

namespace TableTalk

/-- A single comparison other than `<` and `>`. -/
def Constraint.isBoundless (c : Constraint) : Bool :=
  c.second.isNone && match c.first.comparator with
    | .lessThan | .greaterThan => false
    | .greaterThanEquals | .equals | .notEquals => true

namespace Filter

variable {now : Instant} {column : Column} {op : FilterOp} {raw : Text} {cs : List Constraint}

/-- The span that a filter compares whole cells with. -/
def wholeSpan? (now : Instant) (op : FilterOp) (raw : Text) : Option Interval :=
  match op with
  | .equals | .notEquals => Interval.ofTyped? now raw
  | .lessThan | .greaterThan => none

/-- On a span column a filter asks for one comparison: with the span, if whole cells are
compared, and else with an instant. -/
theorem exists_single_of_constraints (hType : column.type = .dateRange)
    (h : constraints now column op raw = .ok cs) :
    ∃ c : Constraint, cs = [c] ∧ c.second = none ∧
      ((∃ i, wholeSpan? now op raw = some i ∧ c.first.value = i.stored ∧ c.isBoundless = true) ∨
        (wholeSpan? now op raw = none ∧ ∃ t : Instant, c.first.value = t.stored)) := by
  have hTime := isTemporal_of_dateRange hType
  cases hSpan : Interval.ofTyped? now raw with
  | some i =>
      rw [constraints_of_interval hTime hSpan] at h
      obtain rfl := Except.ok.inj h
      cases op with
      | equals =>
          refine ⟨.single column.storageName .equals i.stored, by simp [ofInterval, hType], rfl, ?_⟩
          exact Or.inl ⟨i, hSpan, rfl, rfl⟩
      | lessThan => exact ⟨_, rfl, rfl, Or.inr ⟨rfl, i.start, rfl⟩⟩
      | greaterThan => exact ⟨_, rfl, rfl, Or.inr ⟨rfl, i.stop, rfl⟩⟩
      | notEquals =>
          refine ⟨.single column.storageName .notEquals i.stored, by simp [ofInterval, hType],
            rfl, ?_⟩
          exact Or.inl ⟨i, hSpan, rfl, rfl⟩
  | none =>
      have hWhole : wholeSpan? now op raw = none := by cases op <;> first | exact hSpan | rfl
      cases hInstant : Instant.ofTyped? now raw with
      | none =>
          rcases exists_time_of_constraints hTime h with ⟨i, hi⟩ | ⟨x, hx⟩
          · rw [hSpan] at hi
            cases hi
          · rw [hInstant] at hx
            cases hx
      | some t =>
          rw [constraints_of_instant hTime hSpan hInstant] at h
          unfold ofInstant at h
          split at h
          · cases h
          · obtain rfl := Except.ok.inj h
            exact ⟨_, rfl, rfl, Or.inr ⟨hWhole, t, rfl⟩⟩

end Filter

namespace Occupied.Folding

variable {f : Folding} {c : Constraint}

/-- A comparison with an instant is met at that instant. -/
theorem take_instant (f : Folding) {t : Instant} (hSecond : c.second = none)
    (hValue : c.first.value = t.stored) :
    f.take c = .ok (f.bounded c.first.comparator t.wholeSecond) := by
  have hBound : bound t.stored = .ok t.wholeSecond := bound_of_ofStored t.ofStored?_stored
  unfold take bounded
  rw [hSecond, hValue, hBound]
  dsimp only
  cases c.first.comparator <;> rfl

/-- A comparison with a whole span is refused, whatever its kind. -/
theorem take_span (f : Folding) {i : Interval} (hSecond : c.second = none)
    (hValue : c.first.value = i.stored) : f.take c = .error (.corruptRange i.stored) := by
  unfold take bound
  rw [hSecond, hValue, i.instant_ofStored?_stored]

theorem bounded_of_isBoundless (f : Folding) (t : Instant) (h : c.isBoundless = true) :
    f.bounded c.first.comparator t = f := by
  unfold Constraint.isBoundless at h
  unfold bounded
  cases hOp : c.first.comparator with
  | equals => rfl
  | lessThan => simp [hOp] at h
  | greaterThan => simp [hOp] at h
  | greaterThanEquals => rfl
  | notEquals => rfl

end Occupied.Folding

/-! ### Lists of filters -/

namespace Occupied

variable {now : Instant} {column : Column} {filters : List (FilterOp × Text)}
variable {css : List (List Constraint)}

/-- Filters that bound something never stop the fold. -/
theorem exists_foldlM_bounding (hType : column.type = .dateRange)
    (hFilters : filters.mapM (fun x => Filter.constraints now column x.1 x.2) = .ok css)
    (f : Folding) :
    ∃ g, (css.flatten.filter fun c => !c.isBoundless).foldlM Folding.take f = .ok g := by
  induction filters generalizing css f with
  | nil =>
      obtain rfl : [] = css := Except.ok.inj hFilters
      exact ⟨f, rfl⟩
  | cons x filters ih =>
      obtain ⟨cs, css, hOne, hRest, rfl⟩ := Traversal.mapM_cons_ok.mp hFilters
      obtain ⟨c, rfl, hSecond, hKind⟩ := Filter.exists_single_of_constraints hType hOne
      rw [List.flatten_cons, List.singleton_append]
      cases hBoundless : c.isBoundless with
      | true =>
          rw [List.filter_cons_of_neg (by simp [hBoundless])]
          exact ih hRest f
      | false =>
          rw [List.filter_cons_of_pos (by simp [hBoundless])]
          rcases hKind with ⟨i, -, -, hWhole⟩ | ⟨-, t, hValue⟩
          · -- What is compared with a span bounds nothing and has been left out.
            rw [hBoundless] at hWhole
            cases hWhole
          · obtain ⟨g, hg⟩ := ih hRest (f.bounded c.first.comparator t.wholeSecond)
            exact ⟨g, Traversal.foldlM_cons_ok.mpr ⟨_, Folding.take_instant f hSecond hValue, hg⟩⟩

/-- The first comparison with a whole span stops the fold; without one, the comparisons
that bound nothing may be left out. -/
theorem foldlM_of_filters (hType : column.type = .dateRange)
    (hFilters : filters.mapM (fun x => Filter.constraints now column x.1 x.2) = .ok css)
    (f : Folding) :
    css.flatten.foldlM Folding.take f =
      match filters.findSome? fun x => Filter.wholeSpan? now x.1 x.2 with
      | some i => .error (.corruptRange i.stored)
      | none => (css.flatten.filter fun c => !c.isBoundless).foldlM Folding.take f := by
  induction filters generalizing css f with
  | nil =>
      obtain rfl : [] = css := Except.ok.inj hFilters
      rfl
  | cons x filters ih =>
      obtain ⟨cs, css, hOne, hRest, rfl⟩ := Traversal.mapM_cons_ok.mp hFilters
      obtain ⟨c, rfl, hSecond, hKind⟩ := Filter.exists_single_of_constraints hType hOne
      rw [List.flatten_cons, List.singleton_append, List.foldlM_cons, List.findSome?_cons]
      rcases hKind with ⟨i, hWhole, hValue, -⟩ | ⟨hWhole, t, hValue⟩
      · rw [hWhole, Folding.take_span f hSecond hValue]
        rfl
      · have hTake := Folding.take_instant f hSecond hValue
        have hLeft := ih hRest (f.bounded c.first.comparator t.wholeSecond)
        rw [hWhole, hTake]
        refine hLeft.trans ?_
        cases hBoundless : c.isBoundless with
        | true =>
            rw [List.filter_cons_of_neg (by simp [hBoundless]),
              Folding.bounded_of_isBoundless f _ hBoundless]
        | false =>
            rw [List.filter_cons_of_pos (by simp [hBoundless]), List.foldlM_cons, hTake]
            rfl

end Occupied

namespace FreeWindows

/-- **Filters that bound nothing.**  Take the constraints of any accepted filters on a span
column, and cells that can be read.  If one of the filters compares whole cells with a span,
the first of them ends the query, and its own value is called a stored value that is not a
range.  If there is none, the free windows are those without the single comparisons other
than `<` and `>`.  Without these comparisons there always are free windows. -/
theorem ofCells_of_filters {now : Instant} {column : Column} {filters : List (FilterOp × Text)}
    {css : List (List Constraint)} {cells : List Text} {spans : List Occupied}
    (hType : column.type = .dateRange)
    (hFilters : filters.mapM (fun x => Filter.constraints now column x.1 x.2) = .ok css)
    (hCells : cells.mapM Occupied.ofStored = .ok spans) (minGap : Int) :
    (∃ text, ofCells minGap cells (css.flatten.filter fun c => !c.isBoundless) = .ok text) ∧
    ofCells minGap cells css.flatten =
      match filters.findSome? fun x => Filter.wholeSpan? now x.1 x.2 with
      | some i => .error (.corruptRange i.stored)
      | none => ofCells minGap cells (css.flatten.filter fun c => !c.isBoundless) := by
  obtain ⟨g, hg⟩ := Occupied.exists_foldlM_bounding hType hFilters { spans }
  have hAll := Occupied.foldlM_of_filters hType hFilters { spans }
  unfold ofCells Occupied.applyConstraints
  rw [hCells]
  dsimp only
  rw [hg, hAll]
  refine ⟨⟨_, rfl⟩, ?_⟩
  cases filters.findSome? fun x => Filter.wholeSpan? now x.1 x.2 with
  | some i => rfl
  | none => rw [hg]

/-- A column that keeps the spans when a house is let. -/
def lets : Column :=
  { storageName := ['l'], displayName := ['L'], type := .dateRange }

/-- When the filters below are read. -/
def augustNow : Instant :=
  Instant.midnight ⟨2024, 8, 1, by decide⟩

/-- One day on which the house is let. -/
def augustCells : List Text :=
  ["2024-08-01T00:00/2024-08-02T00:00".toList]

/-- Not the 15th as a whole, and before the 20th. -/
def augustFilters : List (FilterOp × Text) :=
  [(.notEquals, "2024-08-15".toList), (.lessThan, "2024-08-20".toList)]

/-- The constraints of `augustFilters`. -/
def augustConstraints : List (List Constraint) :=
  [[.single ['l'] .notEquals "2024-08-15T00:00/2024-08-16T00:00".toList],
    [.single ['l'] .lessThan "2024-08-20T00:00".toList]]

/-- What the filters compile to, what the cells are read as, and the windows with all
constraints and with those that bound something. -/
theorem august_read :
    augustFilters.mapM (fun x => Filter.constraints augustNow lets x.1 x.2) =
        .ok augustConstraints ∧
      augustCells.mapM Occupied.ofStored =
        .ok [.between (.midnight ⟨2024, 8, 1, by decide⟩) (.midnight ⟨2024, 8, 2, by decide⟩)] ∧
      ofCells 0 augustCells augustConstraints.flatten =
        .error (.corruptRange "2024-08-15T00:00/2024-08-16T00:00".toList) ∧
      (ofCells 0 augustCells (augustConstraints.flatten.filter fun c => !c.isBoundless)).toBool =
        true := by
  decide +kernel

theorem augustFilters_constraints :
    augustFilters.mapM (fun x => Filter.constraints augustNow lets x.1 x.2) =
      .ok augustConstraints :=
  august_read.1

theorem augustCells_spans : augustCells.mapM Occupied.ofStored =
    .ok [.between (.midnight ⟨2024, 8, 1, by decide⟩) (.midnight ⟨2024, 8, 2, by decide⟩)] :=
  august_read.2.1

/-- The filter `!` with a day ends the query. -/
theorem ofCells_of_filters_august :
    (∃ text, ofCells 0 augustCells (augustConstraints.flatten.filter fun c => !c.isBoundless) =
      .ok text) ∧
    ofCells 0 augustCells augustConstraints.flatten =
      .error (.corruptRange "2024-08-15T00:00/2024-08-16T00:00".toList) :=
  have hAugust := ofCells_of_filters rfl augustFilters_constraints augustCells_spans 0
  ⟨hAugust.1, august_read.2.2.1⟩

/-- Comparisons that bound nothing are not always passed over. -/
theorem not_boundless_ignored :
    ¬ ∀ (now : Instant) (column : Column) (filters : List (FilterOp × Text))
      (css : List (List Constraint)) (cells : List Text) (spans : List Occupied) (minGap : Int),
      column.type = .dateRange →
      filters.mapM (fun x => Filter.constraints now column x.1 x.2) = .ok css →
      cells.mapM Occupied.ofStored = .ok spans → Occupied.Sorted spans →
      ofCells minGap cells css.flatten =
        ofCells minGap cells (css.flatten.filter fun c => !c.isBoundless) := by
  intro hIgnored
  have hSame := hIgnored augustNow lets augustFilters augustConstraints augustCells _ 0 rfl
    augustFilters_constraints augustCells_spans (List.pairwise_singleton _ _)
  have hDiffer : ofCells 0 augustCells augustConstraints.flatten ≠
      ofCells 0 augustCells (augustConstraints.flatten.filter fun c => !c.isBoundless) := by
    intro hEq
    have hOk := august_read.2.2.2
    rw [← hEq, august_read.2.2.1] at hOk
    cases hOk
  exact hDiffer hSame

end FreeWindows

end TableTalk
