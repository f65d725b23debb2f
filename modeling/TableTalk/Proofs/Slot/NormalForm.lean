import Mathlib.Data.List.Pairwise
import Mathlib.Order.Bounds.Basic
import TableTalk.Proofs.Slot.Components
import TableTalk.Proofs.Traversal

/-!
# Merging as a normal form

Many lists of spans cover the same time.  Merging picks one of them, and which one depends on
the points alone (`Occupied.merge_is_normal_form`).

* A merged list covers the points of the list it was made of and stays sorted by start, and
  each span in it ends before the later ones start.  Nothing is left to join, so that merging
  it again changes nothing (`merge_of_pairwise`).
* The spans of a separated list are the components of the points they cover
  (`Separated.mem_iff_isComponent`), and a span with points in it is known by them
  (`Proper.eq_of_points_eq`).  Two separated lists that cover the same points are therefore
  the same list (`Separated.eq_of_covered_eq`).

The first part holds of all sorted lists, also of those with spans that end when or before
they start.  The second needs spans with points in them, since a span without points that is
joined to no other stays in the list and covers nothing.
-/

namespace TableTalk

namespace Occupied

variable {o a b : Occupied} {spans spans' rest : List Occupied} {x : ℤ}

/-! ### Merging again -/

/-- A span that starts after the end of another is not joined to it. -/
theorem EndsBefore.not_startsBy (h : a.EndsBefore b) :
    a.stop.isNone = false ∧ b.startsBy a.stop = false := by
  obtain ⟨e, he, s, hs, hlt⟩ := h
  have hLate : ¬ s ≤ e := not_le.mpr hlt
  rw [Option.mem_def] at he hs
  exact ⟨by rw [he]; rfl, by simp [startsBy, he, hs, hLate]⟩

theorem mergeFrom_of_pairwise (h : (a :: rest).Pairwise EndsBefore) :
    mergeFrom a rest = a :: rest := by
  induction rest generalizing a with
  | nil => rfl
  | cons b rest ih =>
      obtain ⟨hFirst, hRest⟩ := List.pairwise_cons.mp h
      obtain ⟨hStop, hBy⟩ := (hFirst b List.mem_cons_self).not_startsBy
      simp only [mergeFrom, hStop, hBy, Bool.false_eq_true, if_false, ih hRest]

/-- Spans with free time between them are left as they are. -/
theorem merge_of_pairwise (h : spans.Pairwise EndsBefore) : merge spans = spans := by
  cases spans with
  | nil => rfl
  | cons first rest => exact mergeFrom_of_pairwise h

theorem Sorted.merge_merge (h : Sorted spans) : merge (merge spans) = merge spans :=
  merge_of_pairwise h.pairwise_merge

/-! ### Merging keeps the order -/

theorem Sorted.mergeFrom (h : Sorted (a :: rest)) : Sorted (mergeFrom a rest) := by
  induction rest generalizing a with
  | nil => exact h
  | cons b rest ih =>
      obtain ⟨hFirst, hRest⟩ := List.pairwise_cons.mp h
      rw [Occupied.mergeFrom]
      split
      · exact List.pairwise_singleton _ _
      · split
        · exact ih h.join
        · refine List.pairwise_cons.mpr ⟨fun o ho => ?_, ih hRest⟩
          calc a.origin ≤ b.origin := hFirst b List.mem_cons_self
            _ ≤ o.origin := Sorted.origin_le_of_mem_mergeFrom hRest ho

/-- Merged spans stand in order of their starts. -/
theorem Sorted.merge (h : Sorted spans) : Sorted (merge spans) := by
  cases spans with
  | nil => exact h
  | cons first rest => exact Sorted.mergeFrom h

/-! ### Spans and their points -/

/-- A span is proper exactly if there are points in it. -/
theorem proper_iff_nonempty : o.Proper ↔ o.points.Nonempty := by
  constructor
  · intro h
    cases hStart : o.start with
    | some s => exact ⟨s.rank, h.start_mem_points hStart⟩
    | none =>
        cases hStop : o.stop with
        | some e => exact ⟨e.rank - 1, h.pred_stop_mem_points hStop⟩
        | none => exact ⟨0, by simp [mem_points, hStart, hStop]⟩
  · rintro ⟨x, hStart, hStop⟩ s hs e he
    exact Instant.rank_lt_rank.mp ((hStart s hs).trans_lt (hStop e he))

/-- A proper span starts at its first point, if it has one. -/
theorem Proper.mem_start_iff (h : o.Proper) {s : Instant} :
    s ∈ o.start ↔ IsLeast o.points s.rank := by
  constructor
  · intro hs
    exact ⟨h.start_mem_points hs, fun x hx => hx.1 s hs⟩
  · rintro ⟨hMem, hLeast⟩
    cases hStart : o.start with
    | none =>
        -- Without a start the point before is inside as well.
        have hBefore : s.rank - 1 ∈ o.points := by
          refine ⟨fun t ht => ?_, fun e he => (Int.sub_one_lt_of_le le_rfl).trans (hMem.2 e he)⟩
          rw [hStart] at ht
          cases ht
        have hLe : s.rank ≤ s.rank - 1 := hLeast hBefore
        omega
    | some t =>
        have hLe : s.rank ≤ t.rank := hLeast (h.start_mem_points hStart)
        have hGe : t.rank ≤ s.rank := hMem.1 t hStart
        exact congrArg some (Instant.rank_injective (hGe.antisymm hLe))

/-- It ends right after its last point, if it has one. -/
theorem Proper.mem_stop_iff (h : o.Proper) {e : Instant} :
    e ∈ o.stop ↔ IsGreatest o.points (e.rank - 1) := by
  constructor
  · intro he
    exact ⟨h.pred_stop_mem_points he, fun x hx => Int.le_sub_one_of_lt (hx.2 e he)⟩
  · rintro ⟨hMem, hGreatest⟩
    cases hStop : o.stop with
    | none =>
        have hAfter : e.rank ∈ o.points := by
          refine ⟨fun s hs => (hMem.1 s hs).trans (by omega), fun t ht => ?_⟩
          rw [hStop] at ht
          cases ht
        have hLe : e.rank ≤ e.rank - 1 := hGreatest hAfter
        omega
    | some t =>
        have hLe : t.rank - 1 ≤ e.rank - 1 := hGreatest (h.pred_stop_mem_points hStop)
        have hLt : e.rank - 1 < t.rank := hMem.2 t hStop
        have hSame : t.rank = e.rank := by omega
        exact congrArg some (Instant.rank_injective hSame)

/-- Proper spans with the same points are the same. -/
theorem Proper.eq_of_points_eq (ha : a.Proper) (hb : b.Proper) (h : a.points = b.points) :
    a = b := by
  have hStart : a.start = b.start := Option.ext fun s => by
    rw [← Option.mem_def, ← Option.mem_def, ha.mem_start_iff, hb.mem_start_iff, h]
  have hStop : a.stop = b.stop := Option.ext fun e => by
    rw [← Option.mem_def, ← Option.mem_def, ha.mem_stop_iff, hb.mem_stop_iff, h]
  obtain ⟨start, stop⟩ := a
  obtain ⟨start', stop'⟩ := b
  exact congrArg₂ Occupied.mk hStart hStop

theorem ordConnected_points (o : Occupied) : o.points.OrdConnected := by
  refine ⟨fun x hx y hy z hz => ⟨fun s hs => ?_, fun e he => ?_⟩⟩
  · exact (hx.1 s hs).trans hz.1
  · exact hz.2.trans_lt (hy.2 e he)

theorem EndsBefore.origin_lt (ha : a.Proper) (h : a.EndsBefore b) : a.origin < b.origin := by
  obtain ⟨e, he, s, hs, hlt⟩ := h
  obtain ⟨start, stop⟩ := a
  obtain ⟨start', stop'⟩ := b
  obtain rfl : start' = some s := hs
  cases start with
  | none => exact WithBot.bot_lt_coe s
  | some t => exact WithBot.coe_lt_coe.mpr ((ha t rfl e he).trans hlt)

/-! ### Spans as components -/

namespace Separated

/-- Of two spans of a separated list one ends before the other starts. -/
theorem endsBefore_or (h : Separated spans) (ha : a ∈ spans) (hb : b ∈ spans) (hNe : a ≠ b) :
    a.EndsBefore b ∨ b.EndsBefore a := by
  have hEither : spans.Pairwise fun a b => a.EndsBefore b ∨ b.EndsBefore a :=
    h.apart.imp Or.inl
  have hSymm : Std.Symm fun a b : Occupied => a.EndsBefore b ∨ b.EndsBefore a :=
    ⟨fun _ _ => Or.symm⟩
  exact hEither.forall ha hb hNe

/-- The end of a span is a free point. -/
theorem stop_not_mem_covered (h : Separated spans) (ho : o ∈ spans) {e : Instant}
    (he : e ∈ o.stop) : e.rank ∉ covered spans := by
  rintro ⟨b, hb, hStart, hStop⟩
  by_cases hSame : o = b
  · exact lt_irrefl _ (hStop e (hSame ▸ he))
  · rcases h.endsBefore_or ho hb hSame with ⟨e', he', s, hs, hlt⟩ | ⟨e', he', s, hs, hlt⟩
    · -- A later span starts after this end.
      rw [Option.mem_unique he' he] at hlt
      exact absurd (hStart s hs) (not_le.mpr (Instant.rank_lt_rank.mpr hlt))
    · -- An earlier span ends before this one starts, and so before its end.
      have hBefore : e' < e := hlt.trans (h.proper o ho s hs e he)
      exact lt_asymm (hStop e' he') (Instant.rank_lt_rank.mpr hBefore)

/-- Every span of a separated list is a component of the points that are covered. -/
theorem isComponent (h : Separated spans) (ho : o ∈ spans) :
    IsComponent (covered spans) o.points := by
  obtain ⟨x, hx⟩ := proper_iff_nonempty.mp (h.proper o ho)
  refine isComponent_of_cutOff hx (fun y hy => ⟨o, ho, hy⟩) o.ordConnected_points ?_
  rintro y ⟨b, hb, hy⟩ hOutside
  have hNe : o ≠ b := by
    rintro rfl
    exact hOutside hy
  -- The two are cut off from each other by the end of the earlier one.
  rcases h.endsBefore_or ho hb hNe with ⟨e, he, s, hs, hlt⟩ | ⟨e, he, s, hs, hlt⟩
  · refine ⟨e.rank, Set.mem_uIcc_of_le (hx.2 e he).le ?_, h.stop_not_mem_covered ho he⟩
    exact (Instant.rank_lt_rank.mpr hlt).le.trans (hy.1 s hs)
  · refine ⟨e.rank, Set.mem_uIcc_of_ge (hy.2 e he).le ?_, h.stop_not_mem_covered hb he⟩
    exact (Instant.rank_lt_rank.mpr hlt).le.trans (hx.1 s hs)

/-- The spans of a separated list are the components of the points they cover. -/
theorem mem_iff_isComponent (h : Separated spans) (ho : o.Proper) :
    o ∈ spans ↔ IsComponent (covered spans) o.points := by
  refine ⟨h.isComponent, fun hComponent => ?_⟩
  obtain ⟨x, hx⟩ := proper_iff_nonempty.mp ho
  obtain ⟨b, hb, hxb⟩ : x ∈ covered spans := by
    obtain ⟨y, -, hPoints⟩ := hComponent
    rw [hPoints] at hx
    exact Set.ordConnectedComponent_subset hx
  have hPoints : o.points = b.points := hComponent.eq_of_mem (h.isComponent hb) hx hxb
  rwa [ho.eq_of_points_eq (h.proper b hb) hPoints]

theorem pairwise_origin_lt (h : Separated spans) :
    spans.Pairwise fun a b => a.origin < b.origin :=
  h.apart.imp_of_mem fun ha _ hBefore => hBefore.origin_lt (h.proper _ ha)

/-- There is one separated list for the points that are covered. -/
theorem eq_of_covered_eq (h : Separated spans) (h' : Separated spans')
    (hCovered : covered spans = covered spans') : spans = spans' := by
  -- Both lists ascend, so that it is enough to compare their members.
  refine Traversal.eq_of_ascending h.pairwise_origin_lt h'.pairwise_origin_lt fun o => ?_
  constructor
  · intro ho
    rw [h'.mem_iff_isComponent (h.proper o ho), ← hCovered]
    exact h.isComponent ho
  · intro ho
    rw [h.mem_iff_isComponent (h'.proper o ho), hCovered]
    exact h'.isComponent ho

end Separated

/-- **Merging is a normal form.**  Of every list of spans sorted by start, merging makes a list
that covers the same points and is sorted by start, in which each span has an end and the later
ones start after it, and which is empty only if the list is; merging it again changes nothing.
Of two such lists, all spans of which have points in them, it makes the same list exactly if
they cover the same points. -/
theorem merge_is_normal_form :
    (∀ spans, Sorted spans → covered (merge spans) = covered spans ∧ Sorted (merge spans) ∧
      (merge spans).Pairwise EndsBefore ∧ (merge spans = [] ↔ spans = []) ∧
      merge (merge spans) = merge spans) ∧
    ∀ spans spans', Sorted spans → Sorted spans' → (∀ o ∈ spans, o.points.Nonempty) →
      (∀ o ∈ spans', o.points.Nonempty) →
      (merge spans = merge spans' ↔ covered spans = covered spans') := by
  refine ⟨fun spans h => ⟨h.covered_merge, h.merge, h.pairwise_merge, merge_eq_nil_iff,
    h.merge_merge⟩, fun spans spans' h h' hSome hSome' => ⟨fun hSame => ?_, fun hCovered => ?_⟩⟩
  · rw [← h.covered_merge, hSame, h'.covered_merge]
  · have hSeparated := h.separated_merge fun o ho => proper_iff_nonempty.mpr (hSome o ho)
    have hSeparated' := h'.separated_merge fun o ho => proper_iff_nonempty.mpr (hSome' o ho)
    refine hSeparated.eq_of_covered_eq hSeparated' ?_
    rw [h.covered_merge, h'.covered_merge, hCovered]

instance (spans : List Occupied) : Decidable (Sorted spans) :=
  inferInstanceAs (Decidable (spans.Pairwise fun a b => a.origin ≤ b.origin))

/-- Midnight of a day of February. -/
def february (day : Nat) (h : IsDay 2026 2 day) : Instant :=
  .midnight ⟨2026, 2, day, h⟩

/-- All time up to the 3rd and from the 16th on, with spans that touch the one and lie within
the other. -/
def winter : List Occupied :=
  [⟨none, some (february 3 (by decide))⟩,
    between (february 3 (by decide)) (february 9 (by decide)),
    between (february 3 (by decide)) (february 5 (by decide)),
    ⟨some (february 16 (by decide)), none⟩,
    between (february 16 (by decide)) (february 20 (by decide))]

/-- The same time in other spans. -/
def winterAgain : List Occupied :=
  [⟨none, some (february 9 (by decide))⟩,
    between (february 5 (by decide)) (february 9 (by decide)),
    ⟨some (february 16 (by decide)), none⟩]

/-- Both lists are merged to the same two spans, and so they cover the same time. -/
theorem merge_is_normal_form_winter :
    Sorted winter ∧ Sorted winterAgain ∧ (∀ o ∈ winter, o.points.Nonempty) ∧
    (∀ o ∈ winterAgain, o.points.Nonempty) ∧
    merge winter = [⟨none, some (february 9 (by decide))⟩, ⟨some (february 16 (by decide)), none⟩] ∧
    merge (merge winter) = merge winter ∧ covered winter = covered winterAgain := by
  have hSorted : Sorted winter := by decide +kernel
  have hSortedAgain : Sorted winterAgain := by decide +kernel
  have hProper : ∀ o ∈ winter, ∀ s ∈ o.start, ∀ e ∈ o.stop, s < e := by decide +kernel
  have hProperAgain : ∀ o ∈ winterAgain, ∀ s ∈ o.start, ∀ e ∈ o.stop, s < e := by decide +kernel
  have hMerge : merge winter = merge winterAgain := by decide +kernel
  have hSome : ∀ o ∈ winter, o.points.Nonempty := fun o ho =>
    proper_iff_nonempty.mp (hProper o ho)
  have hSomeAgain : ∀ o ∈ winterAgain, o.points.Nonempty := fun o ho =>
    proper_iff_nonempty.mp (hProperAgain o ho)
  obtain ⟨-, -, -, -, hAgain⟩ := merge_is_normal_form.1 winter hSorted
  exact ⟨hSorted, hSortedAgain, hSome, hSomeAgain, by decide +kernel, hAgain,
    (merge_is_normal_form.2 _ _ hSorted hSortedAgain hSome hSomeAgain).mp hMerge⟩

end Occupied

end TableTalk
