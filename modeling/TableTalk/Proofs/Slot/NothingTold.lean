import TableTalk.Proofs.Slot.Complement

/-!
# Replies that tell no window

A reply about free windows lists the window before the first occupied span, the gaps
that are long enough and the window after the last span.  Cells have both ends, so the
first window is missing only where a `>` takes the time before it, and the last one only
where a `<` takes the time after it.  Where both are missing and every gap is too short,
nothing is left to list, and the reply is the empty text (`ofCells_eq_nil_iff`).

Merging keeps the start of the first span (`exists_mergeFrom_eq`), and it ends without a
window after the last span exactly if one of the spans has no end
(`exists_after_mem_iff`).  Neither depends on the order of the spans or on the direction
in which they run.
-/

namespace TableTalk

namespace Window

theorem text_ne_nil (w : Window) : w.text ≠ [] := by
  cases w with
  | before s => exact List.cons_ne_nil _ _
  | between e s => exact List.append_ne_nil_of_right_ne_nil _ (List.cons_ne_nil _ _)
  | after e => exact List.cons_ne_nil _ _

end Window

namespace FreeWindows

open Occupied
open Constraint (bounds)

variable {minGap : Int} {cells : List Text} {constraints : List Constraint}
  {spans occupied rest : List Occupied} {a : Occupied} {e s : Instant}

theorem told_eq_nil_iff {windows : List Window} :
    told minGap windows = [] ↔ ∀ w ∈ windows, ¬ w.IsTold minGap := by
  simp [told]

/-- A list of merged spans is answered with no text exactly if none of its windows is told. -/
theorem windows_eq_nil_iff {merged : List Occupied} (h : merged ≠ []) :
    windows minGap merged = [] ↔ ∀ w ∈ windowsOf merged, ¬ w.IsTold minGap := by
  have hTexts : [] ∉ told minGap (windowsOf merged) := by
    intro hNil
    obtain ⟨w, -, hText⟩ := List.mem_map.mp hNil
    exact w.text_ne_nil hText
  rw [windows_eq h, Text.join_eq_nil_iff hTexts, told_eq_nil_iff]

/-! ### The open windows of a list -/

theorem before_not_mem_windowsAfter : Window.before s ∉ windowsAfter a rest := by
  induction rest generalizing a with
  | nil => simp [windowsAfter]
  | cons b rest ih =>
      rw [windowsAfter, List.mem_append, not_or]
      refine ⟨?_, ih⟩
      unfold gapWindow
      split <;> simp

theorem before_mem_windowsOf_iff : .before s ∈ windowsOf (a :: rest) ↔ a.start = some s := by
  simp [windowsOf, before_not_mem_windowsAfter]

theorem after_mem_windowsOf_singleton : .after e ∈ windowsOf [a] ↔ a.stop = some e := by
  simp [windowsOf, windowsAfter]

/-- The window after the last span is that of the spans after the first. -/
theorem after_mem_windowsOf_cons (h : rest ≠ []) :
    .after e ∈ windowsOf (a :: rest) ↔ .after e ∈ windowsOf rest := by
  cases rest with
  | nil => exact absurd rfl h
  | cons b rest =>
      have hGap : .after e ∉ gapWindow a b := by
        unfold gapWindow
        split <;> simp
      simp [windowsOf, windowsAfter, hGap]

/-! ### Merging -/

/-- Merging begins with a span that starts where the first one does. -/
theorem exists_mergeFrom_eq (current : Occupied) (rest : List Occupied) :
    ∃ stop later, mergeFrom current rest = ⟨current.start, stop⟩ :: later := by
  induction rest generalizing current with
  | nil => exact ⟨current.stop, [], rfl⟩
  | cons next rest ih =>
      rw [mergeFrom]
      split
      · exact ⟨current.stop, [], rfl⟩
      · split
        · exact ih ⟨current.start, laterStop current.stop next.stop⟩
        · exact ⟨current.stop, _, rfl⟩

theorem laterStop_eq_none_iff {x y : Option Instant} :
    laterStop x y = none ↔ x = none ∨ y = none := by
  cases x <;> cases y <;> simp [laterStop]

/-- Merged spans leave a window after the last one exactly if all of the spans end. -/
theorem exists_after_mem_iff (current : Occupied) (rest : List Occupied) :
    (∃ e, .after e ∈ windowsOf (mergeFrom current rest)) ↔
      ∀ o ∈ current :: rest, o.stop ≠ none := by
  induction rest generalizing current with
  | nil => simp [mergeFrom, after_mem_windowsOf_singleton, Option.ne_none_iff_exists']
  | cons next rest ih =>
      rw [mergeFrom]
      split
      · rename_i hEndless
        have hNone : current.stop = none := Option.isNone_iff_eq_none.mp hEndless
        simp [after_mem_windowsOf_singleton, hNone]
      · rename_i hEnds
        have hSome : current.stop ≠ none := mt Option.isNone_iff_eq_none.mpr hEnds
        split
        · rw [ih]
          simp [laterStop_eq_none_iff, hSome]
        · simp only [after_mem_windowsOf_cons (mergeFrom_ne_nil next rest)]
          rw [ih]
          simp [hSome]

/-! ### The open spans -/

theorem between_of_mem_spans (h : cells.mapM Occupied.ofStored = .ok spans) (ha : a ∈ spans) :
    ∃ start stop, a = between start stop := by
  obtain ⟨cell, -, hRead⟩ := Traversal.exists_of_mem_mapM h ha
  obtain ⟨i, -, rfl⟩ := ofStored_ok_iff.mp hRead
  exact ⟨i.start, i.stop, rfl⟩

theorem between_of_ofSides {first second : Comparison} (h : ofSides first second = .ok a) :
    ∃ start stop, a = between start stop := by
  unfold ofSides at h
  dsimp only at h
  split at h
  · cases h
  · rename_i start _
    split at h
    · cases h
    · rename_i stop _
      exact ⟨start, stop, (Except.ok.inj h).symm⟩

theorem between_of_mem_sides (ha : a ∈ sides constraints) : ∃ start stop, a = between start stop := by
  obtain ⟨c, -, hRead⟩ := List.mem_filterMap.mp ha
  obtain ⟨second, -, hSpan⟩ := Option.bind_eq_some_iff.mp hRead
  cases hSides : ofSides c.first second with
  | error cause =>
      rw [hSides] at hSpan
      cases hSpan
  | ok o =>
      rw [hSides] at hSpan
      obtain rfl : o = a := Option.some.inj hSpan
      exact between_of_ofSides hSides

/-- Only the spans of single comparisons are open. -/
theorem cases_of_mem_occupied (hSpans : cells.mapM Occupied.ofStored = .ok spans)
    (hApply : applyConstraints spans constraints = .ok occupied) (ha : a ∈ occupied) :
    (∃ t ∈ (bounds .greaterThan constraints).max?, a = ⟨none, some t⟩) ∨
      (∃ t ∈ (bounds .lessThan constraints).min?, a = ⟨some t, none⟩) ∨
      ∃ start stop, a = between start stop := by
  have hMem := (applyConstraints_perm hApply).mem_iff.mp ha
  simp only [List.mem_append] at hMem
  rcases hMem with (hUntil | hFrom) | hSide | hSpan
  · obtain ⟨t, ht, rfl⟩ := Option.map_eq_some_iff.mp (Option.mem_toList.mp hUntil)
    exact Or.inl ⟨t, ht, rfl⟩
  · obtain ⟨t, ht, rfl⟩ := Option.map_eq_some_iff.mp (Option.mem_toList.mp hFrom)
    exact Or.inr (Or.inl ⟨t, ht, rfl⟩)
  · exact Or.inr (Or.inr (between_of_mem_sides hSide))
  · exact Or.inr (Or.inr (between_of_mem_spans hSpans hSpan))

/-- A span has no end exactly if a single `<` is among the constraints. -/
theorem exists_endless_iff (hSpans : cells.mapM Occupied.ofStored = .ok spans)
    (hApply : applyConstraints spans constraints = .ok occupied) :
    (∃ o ∈ occupied, o.stop = none) ↔ bounds .lessThan constraints ≠ [] := by
  constructor
  · rintro ⟨o, ho, hStop⟩
    rcases cases_of_mem_occupied hSpans hApply ho with ⟨t, -, rfl⟩ | ⟨t, ht, -⟩ | ⟨x, y, rfl⟩
    · cases hStop
    · rintro hNil
      rw [hNil] at ht
      cases ht
    · cases hStop
  · intro hBounds
    obtain ⟨t, ht⟩ := Option.ne_none_iff_exists'.mp (mt List.min?_eq_none_iff.mp hBounds)
    have hMem : (⟨some t, none⟩ : Occupied) ∈ fromSpan (bounds .lessThan constraints).min? := by
      simp [fromSpan, ht]
    have hAll := List.mem_append_left (sides constraints ++ spans)
      (List.mem_append_right (untilSpan (bounds .greaterThan constraints).max?) hMem)
    exact ⟨⟨some t, none⟩, (applyConstraints_perm hApply).mem_iff.mpr hAll, rfl⟩

/-- The span before a bound stands first. -/
theorem exists_all_eq {f : Folding} {t : Instant} (h : f.busyUntil = some t) :
    ∃ later, f.all = ⟨none, some t⟩ :: later := by
  obtain ⟨spans, busyFrom, busyUntil⟩ := f
  obtain rfl : busyUntil = some t := h
  cases busyFrom with
  | none => exact ⟨spans, rfl⟩
  | some u => exact ⟨insertSorted ⟨some u, none⟩ spans, rfl⟩

/-- The first span has no start exactly if a single `>` is among the constraints. -/
theorem start_eq_none_iff (hSpans : cells.mapM Occupied.ofStored = .ok spans)
    (hApply : applyConstraints spans constraints = .ok (a :: rest)) :
    a.start = none ↔ bounds .greaterThan constraints ≠ [] := by
  constructor
  · intro hStart
    rcases cases_of_mem_occupied hSpans hApply List.mem_cons_self with
      ⟨t, ht, -⟩ | ⟨t, -, rfl⟩ | ⟨x, y, rfl⟩
    · rintro hNil
      rw [hNil] at ht
      cases ht
    · cases hStart
    · cases hStart
  · intro hBounds
    obtain ⟨f, hTook, hAll⟩ := took_of_applyConstraints hApply
    obtain ⟨t, ht⟩ := Option.ne_none_iff_exists'.mp (mt List.max?_eq_none_iff.mp hBounds)
    obtain ⟨later, hFirst⟩ := exists_all_eq ((hTook.busyUntil.trans (greatestOf_none _)).trans ht)
    obtain ⟨rfl, -⟩ := List.cons.inj (hAll.trans hFirst)
    rfl

/-! ### The reply -/

/-- Nothing is left to tell: the open ends are taken by a `>` and a `<`, and no gap between the
merged spans is as long as asked for. -/
def NothingTold (minGap : Int) (cells : List Text) (constraints : List Constraint) : Prop :=
  bounds .greaterThan constraints ≠ [] ∧ bounds .lessThan constraints ≠ [] ∧
    ∃ spans occupied, cells.mapM Occupied.ofStored = .ok spans ∧
      applyConstraints spans constraints = .ok occupied ∧
      ∀ e s, .between e s ∈ windowsOf (merge occupied) → s.nanosSince e < minGap

/-- No window of merged spans is told exactly if there is none at either end and the others
are too short. -/
theorem not_told_iff (hSpans : cells.mapM Occupied.ofStored = .ok spans)
    (hApply : applyConstraints spans constraints = .ok (a :: rest)) :
    (∀ w ∈ windowsOf (merge (a :: rest)), ¬ w.IsTold minGap) ↔
      bounds .greaterThan constraints ≠ [] ∧ bounds .lessThan constraints ≠ [] ∧
        ∀ e s, .between e s ∈ windowsOf (merge (a :: rest)) → s.nanosSince e < minGap := by
  have hBefore : (∀ s, .before s ∉ windowsOf (merge (a :: rest))) ↔
      bounds .greaterThan constraints ≠ [] := by
    obtain ⟨stop, later, hMerge⟩ := exists_mergeFrom_eq a rest
    rw [← start_eq_none_iff hSpans hApply, merge, hMerge, Option.eq_none_iff_forall_ne_some]
    simp only [before_mem_windowsOf_iff, ne_eq]
  have hAfter : (∀ e, .after e ∉ windowsOf (merge (a :: rest))) ↔
      bounds .lessThan constraints ≠ [] := by
    rw [← exists_endless_iff hSpans hApply, merge, ← not_exists, exists_after_mem_iff]
    push Not
    rfl
  rw [← hBefore, ← hAfter]
  constructor
  · intro hNone
    exact ⟨fun s hs => hNone _ hs trivial, fun e he => hNone _ he trivial,
      fun e s hw => not_le.mp (hNone _ hw)⟩
  · rintro ⟨hNoBefore, hNoAfter, hShort⟩ w hw
    cases w with
    | before s => exact absurd hw (hNoBefore s)
    | between e s => exact not_le.mpr (hShort e s hw)
    | after e => exact absurd hw (hNoAfter e)

/-- The reply about free windows is empty exactly if nothing is left to tell. -/
theorem ofCells_eq_nil_iff :
    ofCells minGap cells constraints = .ok [] ↔ NothingTold minGap cells constraints := by
  constructor
  · intro h
    obtain ⟨spans, occupied, hSpans, hApply, hText⟩ := ofCells_ok h
    cases occupied with
    | nil => cases hText
    | cons a rest =>
        have hMerged : merge (a :: rest) ≠ [] := mt merge_eq_nil_iff.mp (List.cons_ne_nil a rest)
        obtain ⟨hUntil, hFrom, hShort⟩ :=
          (not_told_iff hSpans hApply).mp ((windows_eq_nil_iff hMerged).mp hText.symm)
        exact ⟨hUntil, hFrom, spans, _, hSpans, hApply, hShort⟩
  · rintro ⟨hUntil, hFrom, spans, occupied, hSpans, hApply, hShort⟩
    obtain ⟨o, ho, -⟩ := (exists_endless_iff hSpans hApply).mpr hFrom
    have hMerged : merge occupied ≠ [] := mt merge_eq_nil_iff.mp (List.ne_nil_of_mem ho)
    cases occupied with
    | nil => cases ho
    | cons a rest =>
        have hNone := (not_told_iff hSpans hApply).mpr ⟨hUntil, hFrom, hShort⟩
        unfold ofCells
        rw [hSpans]
        dsimp only
        rw [hApply]
        exact congrArg Except.ok ((windows_eq_nil_iff hMerged).mpr hNone)

end FreeWindows

end TableTalk
