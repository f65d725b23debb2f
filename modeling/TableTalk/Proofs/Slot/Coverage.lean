import Mathlib.Data.Int.ConditionallyCompleteOrder
import Mathlib.Order.ConditionallyCompleteLattice.Basic
import Mathlib.Order.Interval.Set.LinearOrder
import Mathlib.Order.WithBot
import TableTalk.Slot.Occupied
import TableTalk.Proofs.Time.Order

/-!
# Points of occupied time

Time is a line of ranks, without a first and without a last point.  A span covers a
half-open stretch of it, a list of spans the union of what its members cover.

Two facts about lists of spans carry the computation of free windows:

* inserting a span keeps a list sorted by start (`Sorted.insertSorted`);
* merging a sorted list keeps the points it covers (`Sorted.covered_merge`) and leaves
  proper spans with free time between each and the next (`Sorted.separated_merge`).

A missing start and a missing end are opposite infinities.  Starts are therefore
compared in `WithBot Instant`, by `Occupied.origin`, and ends are never compared
with starts except where both are present.
-/

namespace TableTalk

namespace Interval

/-- The points of the time line in a span with both ends. -/
def points (i : Interval) : Set ℤ :=
  Set.Ico i.start.rank i.stop.rank

end Interval

namespace Occupied

/-- The points of the time line in a span. -/
def points (o : Occupied) : Set ℤ :=
  {x | (∀ s ∈ o.start, s.rank ≤ x) ∧ ∀ e ∈ o.stop, x < e.rank}

/-- The points covered by a list of spans. -/
def covered (spans : List Occupied) : Set ℤ :=
  {x | ∃ o ∈ spans, x ∈ o.points}

/-- The start of a span, with a missing start before every instant. -/
def origin (o : Occupied) : WithBot Instant :=
  o.start

/-- Spans in order of their starts. -/
def Sorted (spans : List Occupied) : Prop :=
  spans.Pairwise fun a b => a.origin ≤ b.origin

/-- The span ends after it starts. -/
def Proper (o : Occupied) : Prop :=
  ∀ s ∈ o.start, ∀ e ∈ o.stop, s < e

/-- The first span ends, and the second starts at a later instant. -/
def EndsBefore (a b : Occupied) : Prop :=
  ∃ e ∈ a.stop, ∃ s ∈ b.start, e < s

/-- Proper spans, each of which ends before the later ones start. -/
structure Separated (spans : List Occupied) : Prop where
  /-- Each ends after it starts -/
  proper : ∀ o ∈ spans, o.Proper
  /-- There is free time between any two -/
  apart : spans.Pairwise EndsBefore

namespace Separated

variable {a b : Occupied} {rest : List Occupied}

theorem head (h : Separated (a :: rest)) : a.Proper :=
  h.proper a List.mem_cons_self

theorem tail (h : Separated (a :: rest)) : Separated rest :=
  ⟨fun o ho => h.proper o (List.mem_cons_of_mem a ho), (List.pairwise_cons.mp h.apart).2⟩

theorem endsBefore (h : Separated (a :: b :: rest)) : a.EndsBefore b :=
  List.rel_of_pairwise_cons h.apart List.mem_cons_self

end Separated

/-! ### Points -/

theorem mem_points {o : Occupied} {x : ℤ} :
    x ∈ o.points ↔ (∀ s ∈ o.start, s.rank ≤ x) ∧ ∀ e ∈ o.stop, x < e.rank :=
  Iff.rfl

@[simp]
theorem points_between (i : Interval) : (between i.start i.stop).points = i.points := by
  ext x
  simp [mem_points, between, Interval.points]

@[simp]
theorem covered_nil : covered [] = ∅ := by
  simp [covered]

@[simp]
theorem covered_cons (o : Occupied) (spans : List Occupied) :
    covered (o :: spans) = o.points ∪ covered spans := by
  ext x
  simp [covered]

@[simp]
theorem covered_append (spans spans' : List Occupied) :
    covered (spans ++ spans') = covered spans ∪ covered spans' := by
  induction spans with
  | nil => simp
  | cons o rest ih => rw [List.cons_append, covered_cons, covered_cons, ih, Set.union_assoc]

theorem covered_perm {spans spans' : List Occupied} (h : spans.Perm spans') :
    covered spans = covered spans' := by
  ext x
  simp [covered, h.mem_iff]

@[simp]
theorem origin_none (stop : Option Instant) : origin ⟨none, stop⟩ = ⊥ := rfl

@[simp]
theorem origin_some (s : Instant) (stop : Option Instant) : origin ⟨some s, stop⟩ = s := rfl

theorem origin_le_iff {a b : Occupied} :
    a.origin ≤ b.origin ↔ ∀ s ∈ a.start, ∃ t ∈ b.start, s ≤ t :=
  WithBot.le_iff_forall

/-- A proper span holds the point it starts at. -/
theorem Proper.start_mem_points {o : Occupied} {s : Instant} (h : o.Proper) (hs : s ∈ o.start) :
    s.rank ∈ o.points := by
  refine ⟨fun t ht => ?_, fun e he => ?_⟩
  · rw [Option.mem_unique ht hs]
  · exact Instant.rank_lt_rank.mpr (h s hs e he)

/-- A proper span holds the point before its end. -/
theorem Proper.pred_stop_mem_points {o : Occupied} {e : Instant} (h : o.Proper)
    (he : e ∈ o.stop) : e.rank - 1 ∈ o.points := by
  refine ⟨fun s hs => ?_, fun t ht => ?_⟩
  · have hLt : s.rank < e.rank := Instant.rank_lt_rank.mpr (h s hs e he)
    omega
  · rw [Option.mem_unique ht he]
    omega

/-! ### Insertion -/

theorem startsBefore_iff {a b : Occupied} : startsBefore a b = true ↔ a.origin < b.origin := by
  obtain ⟨start, stop⟩ := a
  obtain ⟨start', stop'⟩ := b
  cases start <;> cases start' <;>
    simp [startsBefore]

theorem insertSorted_perm (o : Occupied) (spans : List Occupied) :
    (insertSorted o spans).Perm (o :: spans) := by
  induction spans with
  | nil => exact List.Perm.refl _
  | cons x rest ih =>
      rw [insertSorted]
      split
      · exact List.Perm.refl _
      · exact (ih.cons x).trans (List.Perm.swap o x rest)

/-- A span inserted before the first one that starts later leaves the list sorted. -/
theorem Sorted.insertSorted {o : Occupied} {spans : List Occupied} (h : Sorted spans) :
    Sorted (insertSorted o spans) := by
  induction spans with
  | nil => exact List.pairwise_singleton _ _
  | cons x rest ih =>
      obtain ⟨hFirst, hRest⟩ := List.pairwise_cons.mp h
      rw [Occupied.insertSorted]
      split
      · rename_i hBefore
        have hLe : o.origin ≤ x.origin := (startsBefore_iff.mp hBefore).le
        refine List.pairwise_cons.mpr ⟨fun y hy => ?_, h⟩
        rcases List.mem_cons.mp hy with rfl | hy
        · exact hLe
        · exact hLe.trans (hFirst y hy)
      · rename_i hNotBefore
        have hLe : x.origin ≤ o.origin := not_lt.mp (mt startsBefore_iff.mpr hNotBefore)
        refine List.pairwise_cons.mpr ⟨fun y hy => ?_, ih hRest⟩
        rcases List.mem_cons.mp ((insertSorted_perm o rest).mem_iff.mp hy) with rfl | hy
        · exact hLe
        · exact hFirst y hy

/-! ### Merging -/

/-- What follows an endless span in order of starts lies inside it. -/
theorem points_subset_of_endless {a b : Occupied} (hEndless : a.stop = none)
    (hOrigin : a.origin ≤ b.origin) : b.points ⊆ a.points := by
  intro x hx
  refine ⟨fun s hs => ?_, fun e he => ?_⟩
  · obtain ⟨t, ht, hst⟩ := origin_le_iff.mp hOrigin s hs
    exact le_trans (Instant.rank_le_rank.mpr hst) (hx.1 t ht)
  · rw [hEndless] at he
    cases he

/-- Spans that overlap or touch cover one stretch together. -/
theorem points_join {a b : Occupied} (hOrigin : a.origin ≤ b.origin)
    (hBy : b.startsBy a.stop = true) :
    points ⟨a.start, laterStop a.stop b.stop⟩ = a.points ∪ b.points := by
  obtain ⟨start, stop⟩ := a
  obtain ⟨start', stop'⟩ := b
  have hStarts := origin_le_iff.mp hOrigin
  ext x
  cases start <;> cases start' <;> cases stop <;> cases stop' <;>
    simp [mem_points, laterStop, startsBy, Instant.rank_max, ← Instant.rank_le_rank] at * <;>
    omega

/-- Joining the first two spans keeps the start of the first, and so the order. -/
theorem Sorted.join {a b : Occupied} {rest : List Occupied} (h : Sorted (a :: b :: rest)) :
    Sorted (⟨a.start, laterStop a.stop b.stop⟩ :: rest) := by
  obtain ⟨hFirst, hRest⟩ := List.pairwise_cons.mp h
  refine List.pairwise_cons.mpr ⟨fun o ho => ?_, (List.pairwise_cons.mp hRest).2⟩
  exact hFirst o (List.mem_cons_of_mem b ho)

theorem Sorted.covered_mergeFrom {current : Occupied} {rest : List Occupied}
    (h : Sorted (current :: rest)) :
    covered (mergeFrom current rest) = covered (current :: rest) := by
  induction rest generalizing current with
  | nil => rfl
  | cons next rest ih =>
      obtain ⟨hCurrent, hRest⟩ := List.pairwise_cons.mp h
      rw [mergeFrom]
      split
      · rename_i hEndless
        -- Scanning stops, and everything left starts inside the endless span.
        have hInside : covered (next :: rest) ⊆ current.points := by
          rintro x ⟨o, ho, hx⟩
          exact points_subset_of_endless (Option.isNone_iff_eq_none.mp hEndless)
            (hCurrent o ho) hx
        rw [covered_cons current (next :: rest), Set.union_eq_left.mpr hInside]
        simp
      · split
        · rename_i hBy
          rw [ih h.join, covered_cons, points_join (hCurrent next List.mem_cons_self) hBy,
            covered_cons, covered_cons, Set.union_assoc]
        · rw [covered_cons, ih hRest, ← covered_cons]

/-- Merging keeps the points that are covered. -/
theorem Sorted.covered_merge {spans : List Occupied} (h : Sorted spans) :
    covered (merge spans) = covered spans := by
  cases spans with
  | nil => rfl
  | cons first rest => exact h.covered_mergeFrom

/-- No merged span starts before the one merging began with. -/
theorem Sorted.origin_le_of_mem_mergeFrom {current o : Occupied} {rest : List Occupied}
    (h : Sorted (current :: rest)) (ho : o ∈ mergeFrom current rest) :
    current.origin ≤ o.origin := by
  induction rest generalizing current with
  | nil => exact (List.mem_singleton.mp ho) ▸ le_refl _
  | cons next rest ih =>
      obtain ⟨hCurrent, hRest⟩ := List.pairwise_cons.mp h
      rw [mergeFrom] at ho
      split at ho
      · exact (List.mem_singleton.mp ho) ▸ le_refl _
      · split at ho
        · -- The joined span starts where the first one did.
          have hJoined : origin ⟨current.start, laterStop current.stop next.stop⟩ ≤ o.origin :=
            ih h.join ho
          exact hJoined
        · rcases List.mem_cons.mp ho with rfl | ho
          · exact le_refl _
          · exact (hCurrent next List.mem_cons_self).trans (ih hRest ho)

/-- A span that is not joined to the one before starts after its end. -/
theorem endsBefore_of_not_startsBy {a b : Occupied} (hStop : a.stop.isNone = false)
    (hBy : ¬ b.startsBy a.stop = true) : a.EndsBefore b := by
  obtain ⟨start, stop⟩ := a
  obtain ⟨start', stop'⟩ := b
  cases stop <;> cases start' <;> simp [startsBy, EndsBefore] at *
  exact hBy

theorem EndsBefore.of_origin_le {a b c : Occupied} (h : a.EndsBefore b)
    (hOrigin : b.origin ≤ c.origin) : a.EndsBefore c := by
  obtain ⟨e, he, s, hs, hlt⟩ := h
  obtain ⟨t, ht, hst⟩ := origin_le_iff.mp hOrigin s hs
  exact ⟨e, he, t, ht, lt_of_lt_of_le hlt hst⟩

theorem Sorted.pairwise_mergeFrom {current : Occupied} {rest : List Occupied}
    (h : Sorted (current :: rest)) : (mergeFrom current rest).Pairwise EndsBefore := by
  induction rest generalizing current with
  | nil => exact List.pairwise_singleton _ _
  | cons next rest ih =>
      have hRest : Sorted (next :: rest) := (List.pairwise_cons.mp h).2
      rw [mergeFrom]
      split
      · exact List.pairwise_singleton _ _
      · rename_i hStop
        split
        · exact ih h.join
        · rename_i hBy
          have hGap : current.EndsBefore next :=
            endsBefore_of_not_startsBy (Bool.eq_false_iff.mpr hStop) hBy
          -- What merging makes of the rest starts no earlier than `next`.
          refine List.pairwise_cons.mpr ⟨fun o ho => ?_, ih hRest⟩
          exact hGap.of_origin_le (hRest.origin_le_of_mem_mergeFrom ho)

/-- Merged spans have free time between each and every later one. -/
theorem Sorted.pairwise_merge {spans : List Occupied} (h : Sorted spans) :
    (merge spans).Pairwise EndsBefore := by
  cases spans with
  | nil => exact List.Pairwise.nil
  | cons first rest => exact h.pairwise_mergeFrom

/-- The later of two ends keeps a span that has one of them as its end proper. -/
theorem Proper.join {a b : Occupied} (h : a.Proper) :
    Proper ⟨a.start, laterStop a.stop b.stop⟩ := by
  intro s hs e he
  obtain ⟨start, stop⟩ := a
  obtain ⟨start', stop'⟩ := b
  cases stop <;> cases stop' <;> simp [laterStop] at he
  rename_i e₁ e₂
  rw [← he]
  exact lt_of_lt_of_le (h s hs e₁ rfl) (le_max_left e₁ e₂)

theorem proper_of_mem_mergeFrom {current : Occupied} {rest : List Occupied}
    (h : ∀ o ∈ current :: rest, o.Proper) : ∀ o ∈ mergeFrom current rest, o.Proper := by
  induction rest generalizing current with
  | nil => exact h
  | cons next rest ih =>
      have hCurrent : current.Proper := h current List.mem_cons_self
      have hRest : ∀ o ∈ next :: rest, o.Proper := fun o ho => h o (List.mem_cons_of_mem _ ho)
      rw [mergeFrom]
      split
      · exact fun o ho => (List.mem_singleton.mp ho) ▸ hCurrent
      · split
        · refine ih fun o ho => ?_
          rcases List.mem_cons.mp ho with rfl | ho
          · exact hCurrent.join
          · exact hRest o (List.mem_cons_of_mem _ ho)
        · intro o ho
          rcases List.mem_cons.mp ho with rfl | ho
          · exact hCurrent
          · exact ih hRest o ho

/-- Merging proper spans gives proper spans. -/
theorem proper_of_mem_merge {spans : List Occupied} (h : ∀ o ∈ spans, o.Proper) :
    ∀ o ∈ merge spans, o.Proper := by
  cases spans with
  | nil => exact h
  | cons first rest => exact proper_of_mem_mergeFrom h

/-- Merging sorted proper spans separates them. -/
theorem Sorted.separated_merge {spans : List Occupied} (h : Sorted spans)
    (hProper : ∀ o ∈ spans, o.Proper) : Separated (merge spans) :=
  ⟨proper_of_mem_merge hProper, h.pairwise_merge⟩

theorem mergeFrom_ne_nil (current : Occupied) (rest : List Occupied) :
    mergeFrom current rest ≠ [] := by
  induction rest generalizing current with
  | nil => exact List.cons_ne_nil _ _
  | cons next rest ih =>
      rw [mergeFrom]
      split
      · exact List.cons_ne_nil _ _
      · split
        · exact ih _
        · exact List.cons_ne_nil _ _

/-- Merging leaves nothing only of nothing. -/
theorem merge_eq_nil_iff {spans : List Occupied} : merge spans = [] ↔ spans = [] := by
  cases spans with
  | nil => exact Iff.rfl
  | cons first rest => exact iff_of_false (mergeFrom_ne_nil first rest) (List.cons_ne_nil _ _)

end Occupied

end TableTalk
