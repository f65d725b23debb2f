import Mathlib.Algebra.Order.Group.Multiset
import Mathlib.Tactic.Abel
import TableTalk.Proofs.Slot.Bounds

/-!
# Occupied time gathered from constraints

What `applyConstraints` returns, counted span by span.  Nothing of the given list is lost,
and every constraint of two sides adds one span with both ends, however many of them there
are and wherever they are inserted.  The single comparisons add at most two spans more: one
without a start, which ends at the largest value of `>`, and one without an end, which starts
at the smallest value of `<`.  The list stays in order of starts throughout.

`Constraint.Encloses` says which span a constraint of two sides means, and
`Constraint.Names` which instant a single comparison does.  A fold that comes to its end has
read all of them (`encloses_of_foldlM`, `names_bounds`), so that
`sorted_and_complete_of_applyConstraints` can count them one by one.
-/

namespace TableTalk

namespace Constraint

/-- The constraint has two comparisons. -/
def IsTwoSided (c : Constraint) : Prop :=
  c.second.isSome

instance (c : Constraint) : Decidable c.IsTwoSided :=
  inferInstanceAs (Decidable (c.second.isSome = true))

/-- The constraint is one comparison of this kind. -/
def IsSingle (op : Comparator) (c : Constraint) : Prop :=
  c.second = none ∧ c.first.comparator = op

instance (op : Comparator) (c : Constraint) : Decidable (c.IsSingle op) :=
  inferInstanceAs (Decidable (_ ∧ _))

/-- The two sides name the ends of a span.  The first side names the start if it is `<`, and
otherwise the second side does. -/
def Encloses (c : Constraint) (i : Interval) : Prop :=
  ∃ second, c.second = some second ∧
    (c.first.comparator = .lessThan ∧
        Instant.ofStored? c.first.value = some i.start ∧
        Instant.ofStored? second.value = some i.stop ∨
      c.first.comparator ≠ .lessThan ∧
        Instant.ofStored? second.value = some i.start ∧
        Instant.ofStored? c.first.value = some i.stop)

/-- The first comparison is with this instant. -/
def Names (c : Constraint) (t : Instant) : Prop :=
  Instant.ofStored? c.first.value = some t

end Constraint

namespace Occupied

open Constraint (bounds)

variable {spans occupied : List Occupied} {constraints : List Constraint}

/-- A span with both ends present, as occupied time. -/
def ofInterval (i : Interval) : Occupied :=
  between i.start i.stop

/-! ### Constraints of two sides -/

theorem encloses_of_ofSides {c : Constraint} {second : Comparison} {o : Occupied}
    (hSecond : c.second = some second) (h : ofSides c.first second = .ok o) :
    ∃ i, c.Encloses i ∧ o = ofInterval i := by
  unfold ofSides at h
  split at h
  rename_i startText stopText hTexts
  split at h
  · cases h
  rename_i start hStart
  split at h
  · cases h
  rename_i stop hStop
  obtain rfl := Except.ok.inj h
  refine ⟨⟨start, stop⟩, ⟨second, hSecond, ?_⟩, rfl⟩
  split at hTexts
  · rename_i hFirst
    obtain ⟨rfl, rfl⟩ := Prod.mk.inj hTexts
    exact Or.inl ⟨hFirst, bound_ok hStart, bound_ok hStop⟩
  · rename_i hFirst
    obtain ⟨rfl, rfl⟩ := Prod.mk.inj hTexts
    exact Or.inr ⟨hFirst, bound_ok hStart, bound_ok hStop⟩

/-- A fold that comes to its end has read a span off every constraint of two sides. -/
theorem encloses_of_foldlM {f g : Folding} (h : constraints.foldlM Folding.take f = .ok g) :
    ∃ intervals,
      List.Forall₂ Constraint.Encloses (constraints.filter fun c => c.IsTwoSided) intervals ∧
        sides constraints = intervals.map ofInterval := by
  induction constraints generalizing f with
  | nil => exact ⟨[], List.Forall₂.nil, rfl⟩
  | cons c rest ih =>
      obtain ⟨f', hTake, hRest⟩ := Traversal.foldlM_cons_ok.mp h
      obtain ⟨intervals, hEncloses, hSides⟩ := ih hRest
      rcases Folding.take_ok hTake with ⟨second, o, hSecond, hRead, -⟩ | ⟨hSecond, -⟩
      · obtain ⟨i, hFirst, rfl⟩ := encloses_of_ofSides hSecond hRead
        have hTwo : c.IsTwoSided := by
          simp [Constraint.IsTwoSided, hSecond]
        have hCons : sides (c :: rest) = ofInterval i :: sides rest := by
          simp [sides, hSecond, hRead, Except.toOption]
        refine ⟨i :: intervals, ?_, ?_⟩
        · rw [List.filter_cons_of_pos (by simpa using hTwo)]
          exact List.Forall₂.cons hFirst hEncloses
        · rw [hCons, hSides, List.map_cons]
      · have hOne : ¬ c.IsTwoSided := by
          simp [Constraint.IsTwoSided, hSecond]
        have hCons : sides (c :: rest) = sides rest := by
          simp [sides, hSecond]
        refine ⟨intervals, ?_, hCons.trans hSides⟩
        rw [List.filter_cons_of_neg (by simpa using hOne)]
        exact hEncloses

/-! ### Single comparisons -/

/-- If every single comparison can be read, the instants of one kind are named one by one. -/
theorem names_bounds (op : Comparator)
    (hReadable : ∀ c ∈ constraints, c.second = none → ∃ t, c.Names t) :
    List.Forall₂ Constraint.Names (constraints.filter fun c => c.IsSingle op)
      (bounds op constraints) := by
  induction constraints with
  | nil => exact List.Forall₂.nil
  | cons c rest ih =>
      have hRest := ih fun d hd => hReadable d (List.mem_cons_of_mem c hd)
      by_cases hSingle : c.IsSingle op
      · obtain ⟨t, hName⟩ := hReadable c List.mem_cons_self hSingle.1
        rw [List.filter_cons_of_pos (by simpa using hSingle),
          bounds_cons_of_single hSingle.1 hName, if_pos hSingle.2]
        exact List.Forall₂.cons hName hRest
      · have hSkip : bounds op (c :: rest) = bounds op rest := by
          exact List.filterMap_cons_none (if_neg hSingle)
        rw [List.filter_cons_of_neg (by simpa using hSingle), hSkip]
        exact hRest

/-! ### All spans -/

/-- **Gathering keeps order and loses nothing.**  Spans in order of their starts stay so when
the constraints on their column are taken in, a span without a start before all others.  What
is returned are the given spans, one span for each constraint of two sides, one without a
start that ends at the largest value of `>`, and one without an end that starts at the
smallest value of `<`, each of the last two if there is such a value; and nothing else. -/
theorem sorted_and_complete_of_applyConstraints (hSorted : Sorted spans)
    (h : applyConstraints spans constraints = .ok occupied) :
    Sorted occupied ∧ ∃ (intervals : List Interval) (below above : List Instant),
      List.Forall₂ Constraint.Encloses (constraints.filter fun c => c.IsTwoSided) intervals ∧
      List.Forall₂ Constraint.Names
        (constraints.filter fun c => c.IsSingle .lessThan) below ∧
      List.Forall₂ Constraint.Names
        (constraints.filter fun c => c.IsSingle .greaterThan) above ∧
      (occupied : Multiset Occupied) =
        (spans : Multiset Occupied) + (intervals.map ofInterval : List Occupied) +
          untilSpan above.max? + fromSpan below.min? := by
  refine ⟨sorted_of_applyConstraints hSorted h, ?_⟩
  have hReadable : ∀ c ∈ constraints, c.second = none → ∃ t, c.Names t :=
    readable_of_applyConstraints h
  have hPerm := applyConstraints_perm h
  obtain ⟨intervals, hEncloses, hSides⟩ :
      ∃ intervals,
        List.Forall₂ Constraint.Encloses (constraints.filter fun c => c.IsTwoSided) intervals ∧
          sides constraints = intervals.map ofInterval := by
    unfold applyConstraints at h
    split at h
    · cases h
    · rename_i g hFold
      exact encloses_of_foldlM hFold
  refine ⟨intervals, bounds .lessThan constraints, bounds .greaterThan constraints, hEncloses,
    names_bounds .lessThan hReadable, names_bounds .greaterThan hReadable, ?_⟩
  -- The spans are the same as in `applyConstraints_perm`, in another order.
  rw [Multiset.coe_eq_coe.mpr hPerm, hSides]
  simp only [← Multiset.coe_add]
  abel

/-- Two spans of a week of autumn, in order of their starts. -/
def autumnSpans : List Occupied :=
  ["2026-10-05/2026-10-07".toList, "2026-10-09/2026-10-10".toList].filterMap fun cell =>
    (ofStored cell).toOption

/-- Two spans left out, one with its sides the other way round, and two bounds of either kind
around an equality that bounds nothing. -/
def autumnConstraints : List Constraint :=
  [.single ['l'] .lessThan "2026-10-20".toList,
    .either ['l'] ⟨.greaterThanEquals, "2026-10-13".toList⟩ ⟨.lessThan, "2026-10-12".toList⟩,
    .single ['l'] .greaterThan "2026-10-01".toList,
    .single ['l'] .equals "2026-10-02".toList,
    .either ['l'] ⟨.lessThan, "2026-10-06".toList⟩ ⟨.greaterThanEquals, "2026-10-08".toList⟩,
    .single ['l'] .lessThan "2026-10-18".toList,
    .single ['l'] .greaterThan "2026-10-03".toList]

/-- What is gathered from the two. -/
def autumnOccupied : List Occupied :=
  ["/2026-10-03".toList, "2026-10-05/2026-10-07".toList, "2026-10-06/2026-10-08".toList,
    "2026-10-09/2026-10-10".toList, "2026-10-12/2026-10-13".toList, "2026-10-18/".toList].filterMap
    fun cell => (Interval.splitStored? cell).map fun ends =>
      ⟨Instant.ofStored? ends.1, Instant.ofStored? ends.2⟩

/-- Of two `<` the 18th counts and of two `>` the 3rd. -/
theorem sorted_and_complete_of_applyConstraints_autumn :
    Sorted autumnSpans ∧ applyConstraints autumnSpans autumnConstraints = .ok autumnOccupied ∧
    Sorted autumnOccupied ∧ ∃ (intervals : List Interval) (below above : List Instant),
      List.Forall₂ Constraint.Encloses
        (autumnConstraints.filter fun c => c.IsTwoSided) intervals ∧
      List.Forall₂ Constraint.Names
        (autumnConstraints.filter fun c => c.IsSingle .lessThan) below ∧
      List.Forall₂ Constraint.Names
        (autumnConstraints.filter fun c => c.IsSingle .greaterThan) above ∧
      (autumnOccupied : Multiset Occupied) =
        (autumnSpans : Multiset Occupied) + (intervals.map ofInterval : List Occupied) +
          untilSpan above.max? + fromSpan below.min? := by
  have hSorted : Sorted autumnSpans :=
    (by decide +kernel : autumnSpans.Pairwise fun a b => a.origin ≤ b.origin)
  have hApply : applyConstraints autumnSpans autumnConstraints = .ok autumnOccupied := by
    decide +kernel
  exact ⟨hSorted, hApply, sorted_and_complete_of_applyConstraints hSorted hApply⟩

end Occupied

end TableTalk
