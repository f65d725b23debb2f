import Mathlib.Data.Int.ConditionallyCompleteOrder
import Mathlib.Order.ConditionallyCompleteLattice.Basic
import Mathlib.Order.Interval.Set.OrdConnectedComponent
import Mathlib.Tactic.Push
import Mathlib.Tactic.Set
import TableTalk.Slot.FreeWindows
import TableTalk.Proofs.Slot.Coverage

/-!
# Windows as components of free time

A component of a set of points is a stretch of it that is as long as possible.  The
windows between separated spans, with the one before the first and the one after the
last, are the components of the time the spans leave free
(`mem_windowsOf_iff_isComponent`), and there are no others
(`exists_mem_windowsOf_of_isComponent`).

Two facts about the list of windows suffice.  Each window fits into its place: it is
free, and the points next to it are occupied (`fits_of_mem_windowsOf`).  And no free
point is missed (`exists_mem_windowsOf`).  A component then shares a point with some
window, and components that share a point are equal.
-/

namespace TableTalk

/-- A longest stretch of a set of points. -/
def IsComponent (s c : Set ℤ) : Prop :=
  ∃ x ∈ s, c = s.ordConnectedComponent x

/-- Components that share a point are equal. -/
theorem IsComponent.eq_of_mem {s c c' : Set ℤ} {x : ℤ} (h : IsComponent s c)
    (h' : IsComponent s c') (hx : x ∈ c) (hx' : x ∈ c') : c = c' := by
  obtain ⟨y, -, rfl⟩ := h
  obtain ⟨y', -, rfl⟩ := h'
  rw [Set.ordConnectedComponent_eq hx, Set.ordConnectedComponent_eq hx']

/-- A stretch of a set is a component if it is cut off from the rest of the set. -/
theorem isComponent_of_cutOff {s c : Set ℤ} {x : ℤ} (hx : x ∈ c) (hSubset : c ⊆ s)
    (hConnected : c.OrdConnected) (hCut : ∀ y ∈ s, y ∉ c → ∃ z ∈ Set.uIcc x y, z ∉ s) :
    IsComponent s c := by
  refine ⟨x, hSubset hx, Set.Subset.antisymm ?_ ?_⟩
  · exact Set.subset_ordConnectedComponent hx hSubset
  · intro y hy
    by_contra hOutside
    obtain ⟨z, hz, hzs⟩ := hCut y (Set.ordConnectedComponent_subset hy) hOutside
    exact hzs (hy hz)

/-- A window of free time. -/
inductive Window where
  | before (stop : Instant)
  | between (start stop : Instant)
  | after (start : Instant)
deriving DecidableEq

namespace Window

/-- The points of the time line in a window. -/
def points : Window → Set ℤ
  | before s => Set.Iio s.rank
  | between e s => Set.Ico e.rank s.rank
  | after e => Set.Ici e.rank

/-- The points next to a window. -/
def borders : Window → Set ℤ
  | before s => {s.rank}
  | between e s => {e.rank - 1, s.rank}
  | after e => {e.rank - 1}

/-- The text of a window in a reply. -/
def text : Window → Text
  | before s => "before ".toList ++ s.stored
  | between e s => e.stored ++ '-' :: s.stored
  | after e => "after ".toList ++ e.stored

/-- A bounded window must have the least length asked for. -/
def IsTold (minGap : Int) : Window → Prop
  | between e s => minGap ≤ s.nanosSince e
  | before _ | after _ => True

instance (minGap : Int) : DecidablePred (IsTold minGap)
  | before _ => isTrue trivial
  | between e s => inferInstanceAs (Decidable (minGap ≤ s.nanosSince e))
  | after _ => isTrue trivial

/-- Every point of the first window comes before every point of the second. -/
def Precedes (w w' : Window) : Prop :=
  ∀ x ∈ w.points, ∀ y ∈ w'.points, x < y

/-- The window is free and cannot be made longer. -/
structure Fits (w : Window) (busy : Set ℤ) : Prop where
  /-- There is time in it -/
  nonempty : w.points.Nonempty
  /-- No point of it is occupied -/
  free : ∀ x ∈ w.points, x ∉ busy
  /-- Both neighbouring points are -/
  bordered : w.borders ⊆ busy

theorem ordConnected_points (w : Window) : w.points.OrdConnected := by
  cases w
  · exact Set.ordConnected_Iio
  · exact Set.ordConnected_Ico
  · exact Set.ordConnected_Ici

/-- A border lies between any point of a window and any point outside. -/
theorem exists_border {w : Window} {x y : ℤ} (hx : x ∈ w.points) (hy : y ∉ w.points) :
    ∃ z ∈ w.borders, z ∈ Set.uIcc x y := by
  cases w with
  | before s =>
      simp only [points, borders, Set.mem_Iio, not_lt, Set.mem_singleton_iff,
        exists_eq_left] at *
      rw [Set.mem_uIcc]
      omega
  | between e s =>
      simp only [points, borders, Set.mem_Ico, not_and_or, not_le, not_lt,
        Set.mem_insert_iff, Set.mem_singleton_iff] at *
      rcases hy with hBefore | hAfter
      · refine ⟨e.rank - 1, Or.inl rfl, ?_⟩
        rw [Set.mem_uIcc]
        omega
      · refine ⟨s.rank, Or.inr rfl, ?_⟩
        rw [Set.mem_uIcc]
        omega
  | after e =>
      simp only [points, borders, Set.mem_Ici, not_le, Set.mem_singleton_iff,
        exists_eq_left] at *
      rw [Set.mem_uIcc]
      omega

theorem Fits.isComponent {w : Window} {busy : Set ℤ} (h : w.Fits busy) :
    IsComponent busyᶜ w.points := by
  obtain ⟨x, hx⟩ := h.nonempty
  refine isComponent_of_cutOff hx h.free w.ordConnected_points fun y _ hOutside => ?_
  obtain ⟨z, hz, hBetween⟩ := exists_border hx hOutside
  exact ⟨z, hBetween, fun hFree => hFree (h.bordered hz)⟩

/-- Windows with the same points, and some, are the same. -/
theorem eq_of_points_eq {w w' : Window} (hNonempty : w.points.Nonempty)
    (h : w.points = w'.points) : w = w' := by
  obtain ⟨x, hx⟩ := hNonempty
  have hMem : ∀ y, y ∈ w.points ↔ y ∈ w'.points := fun y => by rw [h]
  -- A window without a start goes below every instant, one without an end above.
  rcases w with s | ⟨e, s⟩ | e <;> rcases w' with s' | ⟨e', s'⟩ | e' <;>
    simp only [points, Set.mem_Iio, Set.mem_Ico, Set.mem_Ici] at hMem hx
  · have hStop : s.rank = s'.rank := by
      have := hMem s.rank
      have := hMem s'.rank
      omega
    rw [Instant.rank_injective hStop]
  · have := hMem (min s.rank e'.rank - 1)
    omega
  · have := hMem (min s.rank e'.rank - 1)
    omega
  · have := hMem (min s'.rank e.rank - 1)
    omega
  · have hStart : e.rank = e'.rank := by
      have := hMem x
      have := hMem e.rank
      have := hMem e'.rank
      omega
    have hStop : s.rank = s'.rank := by
      have := hMem x
      have := hMem s.rank
      have := hMem s'.rank
      omega
    rw [Instant.rank_injective hStart, Instant.rank_injective hStop]
  · have := hMem (max s.rank e'.rank)
    omega
  · have := hMem (min s'.rank e.rank - 1)
    omega
  · have := hMem (max s'.rank e.rank)
    omega
  · have hStart : e.rank = e'.rank := by
      have := hMem e.rank
      have := hMem e'.rank
      omega
    rw [Instant.rank_injective hStart]

end Window

namespace FreeWindows

open Occupied

/-! ### The windows between spans -/

/-- The window between two neighbouring spans. -/
def gapWindow (a b : Occupied) : List Window :=
  match a.stop, b.start with
  | some e, some s => [.between e s]
  | _, _ => []

/-- The windows after a span, between the following ones and after the last. -/
def windowsAfter (a : Occupied) : List Occupied → List Window
  | [] => (a.stop.map Window.after).toList
  | b :: rest => gapWindow a b ++ windowsAfter b rest

/-- All windows that separated spans leave. -/
def windowsOf : List Occupied → List Window
  | [] => []
  | first :: rest => (first.start.map Window.before).toList ++ windowsAfter first rest

/-- The windows of a list that are told, as texts. -/
def told (minGap : Int) (windows : List Window) : List Text :=
  (windows.filter fun w => w.IsTold minGap).map Window.text

theorem told_append (minGap : Int) (ws ws' : List Window) :
    told minGap (ws ++ ws') = told minGap ws ++ told minGap ws' := by
  rw [told, List.filter_append, List.map_append]
  rfl

theorem told_singleton (minGap : Int) (w : Window) :
    told minGap [w] = if w.IsTold minGap then [w.text] else [] := by
  unfold told
  by_cases hTold : w.IsTold minGap
  · simp [hTold]
  · simp [hTold]

theorem told_gapWindow (minGap : Int) (a b : Occupied) :
    told minGap (gapWindow a b) = gap minGap a b := by
  unfold gapWindow gap
  cases a.stop with
  | none => rfl
  | some e =>
      cases b.start with
      | none => rfl
      | some s => exact told_singleton minGap (.between e s)

/-- The gaps after a span and the window after the last one, as they are told. -/
theorem told_windowsAfter (minGap : Int) (a : Occupied) (rest : List Occupied) :
    told minGap (windowsAfter a rest) = gaps minGap (a :: rest) ++ after (rest.getLastD a) := by
  induction rest generalizing a with
  | nil =>
      rw [windowsAfter, gaps, List.getLastD_nil, List.nil_append, after]
      · cases a.stop <;> rfl
      · exact fun _ _ _ h => nomatch h
  | cons b rest ih =>
      have hLast : (b :: rest).getLastD a = rest.getLastD b := by
        cases rest <;> rfl
      rw [windowsAfter, told_append, told_gapWindow, ih, gaps, hLast, List.append_assoc]

/-- The reply lists the windows that are long enough. -/
theorem windows_eq {minGap : Int} {merged : List Occupied} (h : merged ≠ []) :
    windows minGap merged = Text.join [';'] (told minGap (windowsOf merged)) := by
  cases merged with
  | nil => exact absurd rfl h
  | cons first rest =>
      have hFirst : told minGap (first.start.map Window.before).toList = before first := by
        unfold before
        cases first.start <;> rfl
      rw [windows, windowsOf, told_append, told_windowsAfter, hFirst, List.append_assoc]

/-! ### Every window fits -/

variable {spans rest : List Occupied} {a b : Occupied} {e s : Instant} {w : Window} {x : ℤ}

theorem mem_windowsAfter_nil : w ∈ windowsAfter a [] ↔ ∃ e ∈ a.stop, .after e = w := by
  rw [windowsAfter, Option.mem_toList, Option.map_eq_some_iff]
  rfl

theorem mem_windowsAfter_cons (he : e ∈ a.stop) (hs : s ∈ b.start) :
    w ∈ windowsAfter a (b :: rest) ↔ w = .between e s ∨ w ∈ windowsAfter b rest := by
  rw [windowsAfter, gapWindow, Option.mem_def.mp he, Option.mem_def.mp hs, List.singleton_append,
    List.mem_cons]

/-- The points of a window after a span come after the span. -/
theorem exists_stop_le_of_mem_windowsAfter (h : Separated (a :: rest))
    (hw : w ∈ windowsAfter a rest) : ∃ e ∈ a.stop, ∀ x ∈ w.points, e.rank ≤ x := by
  induction rest generalizing a with
  | nil =>
      obtain ⟨e, he, rfl⟩ := mem_windowsAfter_nil.mp hw
      exact ⟨e, he, fun x hx => hx⟩
  | cons b rest ih =>
      obtain ⟨e, he, s, hs, hlt⟩ := h.endsBefore
      refine ⟨e, he, fun x hx => ?_⟩
      rcases (mem_windowsAfter_cons he hs).mp hw with rfl | hw
      · exact hx.1
      · -- Later windows come after the end of `b`, which starts after the end of `a`.
        obtain ⟨e', he', hAfter⟩ := ih h.tail hw
        have hEnd : e < e' := hlt.trans (h.tail.head s hs e' he')
        exact (Instant.rank_le_rank.mpr hEnd.le).trans (hAfter x hx)

theorem not_mem_points_of_mem_windowsAfter (h : Separated (a :: rest))
    (hw : w ∈ windowsAfter a rest) (hx : x ∈ w.points) : x ∉ a.points := by
  obtain ⟨e, he, hAfter⟩ := exists_stop_le_of_mem_windowsAfter h hw
  intro hInside
  exact absurd (hInside.2 e he) (not_lt.mpr (hAfter x hx))

/-- What is covered from a span on comes after its start. -/
theorem start_le_of_mem_covered (h : Separated (a :: rest)) (hs : s ∈ a.start)
    (hx : x ∈ covered (a :: rest)) : s.rank ≤ x := by
  obtain ⟨o, ho, hx⟩ := hx
  rcases List.mem_cons.mp ho with rfl | ho
  · exact hx.1 s hs
  · obtain ⟨e, he, t, ht, hlt⟩ := List.rel_of_pairwise_cons h.apart ho
    have hStart : s < t := (h.head s hs e he).trans hlt
    exact (Instant.rank_le_rank.mpr hStart.le).trans (hx.1 t ht)

/-- The window after the last span fits. -/
theorem fits_after (ha : a.Proper) (he : e ∈ a.stop) : Window.Fits (.after e) (covered [a]) := by
  rw [covered_cons, covered_nil, Set.union_empty]
  refine ⟨⟨e.rank, le_refl e.rank⟩, fun x hx hInside => ?_, ?_⟩
  · exact absurd (hInside.2 e he) (not_lt.mpr hx)
  · rintro x rfl
    exact ha.pred_stop_mem_points he

/-- The window between the first two spans fits. -/
theorem fits_between (h : Separated (a :: b :: rest)) (he : e ∈ a.stop) (hs : s ∈ b.start)
    (hlt : e < s) : Window.Fits (.between e s) (covered (a :: b :: rest)) := by
  rw [covered_cons]
  refine ⟨⟨e.rank, le_refl e.rank, Instant.rank_lt_rank.mpr hlt⟩, ?_, ?_⟩
  · rintro x ⟨hAfter, hBefore⟩ (hFirst | hLater)
    · exact absurd (hFirst.2 e he) (not_lt.mpr hAfter)
    · exact absurd (start_le_of_mem_covered h.tail hs hLater) (not_le.mpr hBefore)
  · rintro x (rfl | rfl)
    · exact Or.inl (h.head.pred_stop_mem_points he)
    · exact Or.inr ⟨b, List.mem_cons_self, h.tail.head.start_mem_points hs⟩

theorem fits_of_mem_windowsAfter (h : Separated (a :: rest)) (hw : w ∈ windowsAfter a rest) :
    w.Fits (covered (a :: rest)) := by
  induction rest generalizing a with
  | nil =>
      obtain ⟨e, he, rfl⟩ := mem_windowsAfter_nil.mp hw
      exact fits_after h.head he
  | cons b rest ih =>
      obtain ⟨e, he, s, hs, hlt⟩ := h.endsBefore
      rcases (mem_windowsAfter_cons he hs).mp hw with rfl | hLater
      · exact fits_between h he hs hlt
      · -- A window that fits among the later spans is free of the first one as well.
        have hFits : w.Fits (covered (b :: rest)) := ih h.tail hLater
        rw [covered_cons]
        refine ⟨hFits.nonempty, fun x hx => ?_, hFits.bordered.trans Set.subset_union_right⟩
        rintro (hFirst | hRest)
        · exact not_mem_points_of_mem_windowsAfter h hw hx hFirst
        · exact hFits.free x hx hRest

/-- The window before the first span fits. -/
theorem fits_before (h : Separated (a :: rest)) (hs : s ∈ a.start) :
    Window.Fits (.before s) (covered (a :: rest)) := by
  refine ⟨⟨s.rank - 1, Int.sub_one_lt_of_le (le_refl s.rank)⟩, fun x hx hBusy => ?_, ?_⟩
  · exact absurd (start_le_of_mem_covered h hs hBusy) (not_le.mpr hx)
  · rintro x rfl
    exact ⟨a, List.mem_cons_self, h.head.start_mem_points hs⟩

/-- Every window of a list of separated spans is free up to occupied points. -/
theorem fits_of_mem_windowsOf (h : Separated spans) (hw : w ∈ windowsOf spans) :
    w.Fits (covered spans) := by
  cases spans with
  | nil => cases hw
  | cons first rest =>
      rw [windowsOf, List.mem_append, Option.mem_toList, Option.map_eq_some_iff] at hw
      rcases hw with ⟨s, hs, rfl⟩ | hw
      · exact fits_before h hs
      · exact fits_of_mem_windowsAfter h hw

/-! ### No free point is missed -/

/-- A point that is not before a span nor in it comes after its end. -/
theorem exists_stop_le_of_not_mem_points (hStart : ∀ s ∈ a.start, s.rank ≤ x)
    (hFree : x ∉ a.points) : ∃ e ∈ a.stop, e.rank ≤ x := by
  by_contra hNone
  push Not at hNone
  exact hFree ⟨hStart, hNone⟩

theorem exists_mem_windowsAfter (h : Separated (a :: rest)) (hStart : ∀ s ∈ a.start, s.rank ≤ x)
    (hFree : x ∉ covered (a :: rest)) : ∃ w ∈ windowsAfter a rest, x ∈ w.points := by
  rw [covered_cons, Set.mem_union, not_or] at hFree
  obtain ⟨e, he, hStop⟩ := exists_stop_le_of_not_mem_points hStart hFree.1
  induction rest generalizing a e with
  | nil => exact ⟨.after e, mem_windowsAfter_nil.mpr ⟨e, he, rfl⟩, hStop⟩
  | cons b rest ih =>
      obtain ⟨e', he', s, hs, -⟩ := h.endsBefore
      obtain rfl : e = e' := Option.mem_unique he he'
      -- A free point before the start of `b` lies between the two, any other after `b`.
      by_cases hGap : x < s.rank
      · exact ⟨.between e s, (mem_windowsAfter_cons he hs).mpr (Or.inl rfl), hStop, hGap⟩
      · have hStartB : ∀ t ∈ b.start, t.rank ≤ x := by
          intro t ht
          rw [Option.mem_unique ht hs]
          exact not_lt.mp hGap
        have hFreeB := hFree.2
        rw [covered_cons, Set.mem_union, not_or] at hFreeB
        obtain ⟨e', he', hStop'⟩ := exists_stop_le_of_not_mem_points hStartB hFreeB.1
        obtain ⟨w, hw, hx⟩ := ih h.tail hStartB hFreeB e' he' hStop'
        exact ⟨w, (mem_windowsAfter_cons he hs).mpr (Or.inr hw), hx⟩

/-- Every free point lies in one of the windows. -/
theorem exists_mem_windowsOf (hSpans : spans ≠ []) (h : Separated spans)
    (hFree : x ∉ covered spans) : ∃ w ∈ windowsOf spans, x ∈ w.points := by
  cases spans with
  | nil => exact absurd rfl hSpans
  | cons first rest =>
      by_cases hStart : ∀ s ∈ first.start, s.rank ≤ x
      · obtain ⟨w, hw, hx⟩ := exists_mem_windowsAfter h hStart hFree
        exact ⟨w, List.mem_append_right _ hw, hx⟩
      · push Not at hStart
        obtain ⟨s, hs, hBefore⟩ := hStart
        refine ⟨.before s, List.mem_append_left _ ?_, hBefore⟩
        rw [Option.mem_def.mp hs]
        exact List.mem_singleton.mpr rfl

/-! ### Windows and components -/

/-- A component of free time is one of the windows. -/
theorem exists_mem_windowsOf_of_isComponent {c : Set ℤ} (hSpans : spans ≠ [])
    (h : Separated spans) (hc : IsComponent (covered spans)ᶜ c) :
    ∃ w ∈ windowsOf spans, w.points = c := by
  obtain ⟨x, hFree, rfl⟩ := hc
  obtain ⟨w, hw, hx⟩ := exists_mem_windowsOf hSpans h hFree
  have hWindow : IsComponent (covered spans)ᶜ w.points := (fits_of_mem_windowsOf h hw).isComponent
  refine ⟨w, hw, hWindow.eq_of_mem ⟨x, hFree, rfl⟩ hx ?_⟩
  exact Set.self_mem_ordConnectedComponent.mpr hFree

/-- The windows between separated spans are the components of the time they leave free. -/
theorem mem_windowsOf_iff_isComponent (hSpans : spans ≠ []) (h : Separated spans) :
    w ∈ windowsOf spans ↔ IsComponent (covered spans)ᶜ w.points := by
  constructor
  · intro hw
    exact (fits_of_mem_windowsOf h hw).isComponent
  · intro hc
    obtain ⟨w', hw', hEq⟩ := exists_mem_windowsOf_of_isComponent hSpans h hc
    have hNonempty := (fits_of_mem_windowsOf h hw').nonempty
    rwa [← Window.eq_of_points_eq hNonempty hEq]

/-! ### Order in time -/

theorem pairwise_windowsAfter (h : Separated (a :: rest)) :
    (windowsAfter a rest).Pairwise Window.Precedes := by
  induction rest generalizing a with
  | nil =>
      rw [windowsAfter]
      cases a.stop with
      | none => exact List.Pairwise.nil
      | some e => exact List.pairwise_singleton _ _
  | cons b rest ih =>
      obtain ⟨e, he, s, hs, -⟩ := h.endsBefore
      rw [windowsAfter, gapWindow, Option.mem_def.mp he, Option.mem_def.mp hs]
      refine List.pairwise_cons.mpr ⟨fun w hw x hx y hy => ?_, ih h.tail⟩
      -- The first window ends at the start of `b`, and the others come after the end of `b`.
      obtain ⟨e', he', hAfter⟩ := exists_stop_le_of_mem_windowsAfter h.tail hw
      have hSpan : s < e' := h.tail.head s hs e' he'
      have hBefore : x < s.rank := hx.2
      exact (hBefore.trans (Instant.rank_lt_rank.mpr hSpan)).trans_le (hAfter y hy)

/-- The windows stand in the order of time. -/
theorem pairwise_windowsOf (h : Separated spans) : (windowsOf spans).Pairwise Window.Precedes := by
  cases spans with
  | nil => exact List.Pairwise.nil
  | cons first rest =>
      have hAfter := pairwise_windowsAfter h
      rw [windowsOf]
      cases hs : first.start with
      | none => exact hAfter
      | some s =>
          refine List.pairwise_cons.mpr ⟨fun w hw x hx y hy => ?_, hAfter⟩
          obtain ⟨e, he, hLe⟩ := exists_stop_le_of_mem_windowsAfter h hw
          have hSpan : s < e := h.head s hs e he
          have hBefore : x < s.rank := hx
          exact (hBefore.trans (Instant.rank_lt_rank.mpr hSpan)).trans_le (hLe y hy)

end FreeWindows

end TableTalk
