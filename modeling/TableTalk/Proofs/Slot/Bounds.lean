import TableTalk.Proofs.Traversal
import TableTalk.Proofs.Slot.Coverage

/-!
# Occupied time under constraints

What the constraints on a slot column add to occupied time, apart from the order in
which they are taken.  A constraint of two sides adds the span between them
(`sides`), and of the single comparisons of one kind only the outermost value counts:
the smallest of `<` and the largest of `>` (`bounds`).  Single comparisons of other
kinds must have a readable value and add nothing.

`Folding.Took` is what a fold keeps from its first constraint to its last; it is
proved from the effect of one constraint (`Folding.take_ok`).  From it follow the
spans that `applyConstraints` returns (`applyConstraints_perm`) and their order
(`sorted_of_applyConstraints`).
-/

namespace TableTalk

namespace Constraint

/-- The constraint leaves out the cells of a span: it is `<` with the start or `>=` with
the end, in either order. -/
def Excludes (c : Constraint) (i : Interval) : Prop :=
  ∃ below above : Text,
    Instant.ofStored? below = some i.start ∧ Instant.ofStored? above = some i.stop ∧
      (c.first = ⟨.lessThan, below⟩ ∧ c.second = some ⟨.greaterThanEquals, above⟩ ∨
        c.first = ⟨.greaterThanEquals, above⟩ ∧ c.second = some ⟨.lessThan, below⟩)

/-- The instants that single comparisons of one kind name, in order. -/
def bounds (op : Comparator) (constraints : List Constraint) : List Instant :=
  constraints.filterMap fun c =>
    if c.second = none ∧ c.first.comparator = op then Instant.ofStored? c.first.value else none

end Constraint

namespace Occupied

open Constraint (bounds)

/-- The spans between the two sides of constraints, in order. -/
def sides (constraints : List Constraint) : List Occupied :=
  constraints.filterMap fun c => c.second.bind fun second => (ofSides c.first second).toOption

theorem bound_ok {value : Text} {t : Instant} (h : bound value = .ok t) :
    Instant.ofStored? value = some t := by
  unfold bound at h
  split at h
  · rename_i t' ht
    rw [ht]
    exact congrArg some (Except.ok.inj h)
  · cases h

theorem bound_of_ofStored {value : Text} {t : Instant} (h : Instant.ofStored? value = some t) :
    bound value = .ok t := by
  unfold bound
  rw [h]

/-- A constraint that excludes a span has it between its sides. -/
theorem ofSides_of_excludes {c : Constraint} {i : Interval} (h : c.Excludes i) :
    ∃ second, c.second = some second ∧ ofSides c.first second = .ok (between i.start i.stop) := by
  obtain ⟨below, above, hBelow, hAbove, hForm⟩ := h
  have hStart := bound_of_ofStored hBelow
  have hStop := bound_of_ofStored hAbove
  rcases hForm with ⟨hFirst, hSecond⟩ | ⟨hFirst, hSecond⟩
  · exact ⟨_, hSecond, by simp [ofSides, hFirst, hStart, hStop]⟩
  · exact ⟨_, hSecond, by simp [ofSides, hFirst, hStart, hStop]⟩

/-! ### One constraint -/

/-- A fold that has met the value of a single comparison. -/
def Folding.bounded (f : Folding) (op : Comparator) (value : Instant) : Folding :=
  match op with
  | .lessThan => { f with busyFrom := some (least f.busyFrom value) }
  | .greaterThan => { f with busyUntil := some (greatest f.busyUntil value) }
  | .greaterThanEquals | .equals | .notEquals => f

@[simp]
theorem Folding.bounded_spans (f : Folding) (op : Comparator) (value : Instant) :
    (f.bounded op value).spans = f.spans := by
  cases op <;> rfl

theorem Folding.bounded_busyFrom (f : Folding) (op : Comparator) (value : Instant) :
    (f.bounded op value).busyFrom =
      if op = .lessThan then some (least f.busyFrom value) else f.busyFrom := by
  cases op <;> rfl

theorem Folding.bounded_busyUntil (f : Folding) (op : Comparator) (value : Instant) :
    (f.bounded op value).busyUntil =
      if op = .greaterThan then some (greatest f.busyUntil value) else f.busyUntil := by
  cases op <;> rfl

theorem bounds_cons_of_single {c : Constraint} {rest : List Constraint} {op : Comparator}
    {value : Instant} (hSecond : c.second = none)
    (hValue : Instant.ofStored? c.first.value = some value) :
    bounds op (c :: rest) =
      if c.first.comparator = op then value :: bounds op rest else bounds op rest := by
  by_cases hOp : c.first.comparator = op
  · simp [bounds, hSecond, hOp, hValue]
  · simp [bounds, hOp]

/-- What a constraint does to a fold: its sides become a span, or its one value is met. -/
theorem Folding.take_ok {f g : Folding} {c : Constraint} (h : f.take c = .ok g) :
    (∃ second o, c.second = some second ∧ ofSides c.first second = .ok o ∧
      g = { f with spans := insertSorted o f.spans }) ∨
    (c.second = none ∧ ∃ value, Instant.ofStored? c.first.value = some value ∧
      g = f.bounded c.first.comparator value) := by
  unfold Folding.take at h
  split at h
  · rename_i second hSecond
    split at h
    · cases h
    · rename_i o hSides
      exact Or.inl ⟨second, o, hSecond, hSides, (Except.ok.inj h).symm⟩
  · rename_i hSecond
    split at h
    · cases h
    · rename_i value hValue
      refine Or.inr ⟨hSecond, value, bound_ok hValue, ?_⟩
      unfold Folding.bounded
      cases hOp : c.first.comparator <;> rw [hOp] at h <;> exact (Except.ok.inj h).symm

/-! ### A list of constraints -/

/-- The smallest value met, with the one before. -/
def leastOf (before : Option Instant) (values : List Instant) : Option Instant :=
  values.foldl (fun best value => some (least best value)) before

/-- The largest value met, with the one before. -/
def greatestOf (before : Option Instant) (values : List Instant) : Option Instant :=
  values.foldl (fun best value => some (greatest best value)) before

/-- What a fold has gained from constraints. -/
structure Folding.Took (f g : Folding) (constraints : List Constraint) : Prop where
  /-- Nothing is lost but the order -/
  spans : g.spans.Perm (sides constraints ++ f.spans)
  /-- A sorted list stays sorted -/
  sorted : Sorted f.spans → Sorted g.spans
  /-- Among `<` the smallest value counts -/
  busyFrom : g.busyFrom = leastOf f.busyFrom (bounds .lessThan constraints)
  /-- Among `>` the largest value counts -/
  busyUntil : g.busyUntil = greatestOf f.busyUntil (bounds .greaterThan constraints)
  /-- Every single comparison had a readable value -/
  readable : ∀ c ∈ constraints, c.second = none → ∃ t, Instant.ofStored? c.first.value = some t

/-- The effect of the first constraint followed by that of the others. -/
theorem Folding.Took.cons {f g h : Folding} {c : Constraint} {rest : List Constraint}
    (hTake : f.take c = .ok g) (hRest : g.Took h rest) : f.Took h (c :: rest) := by
  rcases take_ok hTake with ⟨second, o, hSecond, hSides, rfl⟩ | ⟨hSecond, value, hValue, rfl⟩
  · -- A constraint of two sides leaves both bounds alone.
    have hCons : sides (c :: rest) = o :: sides rest := by
      simp [sides, hSecond, hSides, Except.toOption]
    refine ⟨?_, fun hSorted => hRest.sorted hSorted.insertSorted, ?_, ?_, ?_⟩
    · rw [hCons]
      refine hRest.spans.trans (((insertSorted_perm o f.spans).append_left _).trans ?_)
      exact List.perm_middle
    · rw [hRest.busyFrom]
      simp [bounds, hSecond]
    · rw [hRest.busyUntil]
      simp [bounds, hSecond]
    · intro d hd hNone
      rcases List.mem_cons.mp hd with rfl | hd
      · rw [hSecond] at hNone
        cases hNone
      · exact hRest.readable d hd hNone
  · -- A single comparison leaves the spans alone, and the bound of another kind.
    have hCons : sides (c :: rest) = sides rest := by
      simp [sides, hSecond]
    refine ⟨?_, fun hSorted => hRest.sorted (by simpa using hSorted), ?_, ?_, ?_⟩
    · rw [hCons]
      simpa using hRest.spans
    · rw [hRest.busyFrom, Folding.bounded_busyFrom, bounds_cons_of_single hSecond hValue]
      split <;> rfl
    · rw [hRest.busyUntil, Folding.bounded_busyUntil, bounds_cons_of_single hSecond hValue]
      split <;> rfl
    · intro d hd hNone
      rcases List.mem_cons.mp hd with rfl | hd
      · exact ⟨value, hValue⟩
      · exact hRest.readable d hd hNone

theorem Folding.took_of_foldlM {f g : Folding} {constraints : List Constraint}
    (h : constraints.foldlM Folding.take f = .ok g) : f.Took g constraints := by
  induction constraints generalizing f with
  | nil =>
      obtain rfl : f = g := Except.ok.inj h
      exact ⟨List.Perm.refl _, id, rfl, rfl, fun c hc => absurd hc List.not_mem_nil⟩
  | cons c rest ih =>
      obtain ⟨f', hTake, hRest⟩ := Traversal.foldlM_cons_ok.mp h
      exact Folding.Took.cons hTake (ih hRest)

/-- Once a value was met, keeping the better of two is an ordinary fold. -/
theorem foldl_some {better : Instant → Instant → Instant}
    {pick : Option Instant → Instant → Instant}
    (hPick : ∀ best value, pick (some best) value = better best value) (first : Instant)
    (rest : List Instant) :
    rest.foldl (fun best value => some (pick best value)) (some first) =
      some (rest.foldl better first) := by
  induction rest generalizing first with
  | nil => rfl
  | cons next rest ih => rw [List.foldl_cons, List.foldl_cons, hPick, ih]

theorem leastOf_none (values : List Instant) : leastOf none values = values.min? := by
  cases values with
  | nil => rfl
  | cons first rest => exact foldl_some (fun _ _ => rfl) first rest

theorem greatestOf_none (values : List Instant) : greatestOf none values = values.max? := by
  cases values with
  | nil => rfl
  | cons first rest => exact foldl_some (fun _ _ => rfl) first rest

/-! ### All spans -/

/-- The span before an instant, if there is one. -/
def untilSpan (until? : Option Instant) : List Occupied :=
  (until?.map fun t => ⟨none, some t⟩).toList

/-- The span from an instant on, if there is one. -/
def fromSpan (from? : Option Instant) : List Occupied :=
  (from?.map fun t => ⟨some t, none⟩).toList

theorem Folding.all_perm (f : Folding) :
    f.all.Perm (untilSpan f.busyUntil ++ fromSpan f.busyFrom ++ f.spans) := by
  obtain ⟨spans, busyFrom, busyUntil⟩ := f
  cases busyFrom with
  | none => cases busyUntil <;> exact List.Perm.refl _
  | some t =>
      cases busyUntil with
      | none => exact insertSorted_perm _ _
      | some u => exact (insertSorted_perm _ _).trans (List.Perm.swap _ _ _)

/-- The span without a start stands first, the one without an end where it belongs. -/
theorem Folding.sorted_all {f : Folding} (h : Sorted f.spans) : Sorted f.all := by
  obtain ⟨spans, busyFrom, busyUntil⟩ := f
  have hUntil : ∀ u : Instant, Sorted (⟨none, some u⟩ :: spans) :=
    fun u => List.pairwise_cons.mpr ⟨fun o _ => bot_le, h⟩
  cases busyFrom <;> cases busyUntil
  · exact h
  · exact hUntil _
  · exact h.insertSorted
  · exact (hUntil _).insertSorted

theorem took_of_applyConstraints {spans occupied : List Occupied}
    {constraints : List Constraint} (h : applyConstraints spans constraints = .ok occupied) :
    ∃ f : Folding, Folding.Took { spans } f constraints ∧ occupied = f.all := by
  unfold applyConstraints at h
  split at h
  · cases h
  · rename_i f hFold
    exact ⟨f, Folding.took_of_foldlM hFold, (Except.ok.inj h).symm⟩

/-- The occupied spans are the given ones, those between the sides of constraints, and
the two open ones at the outermost bounds. -/
theorem applyConstraints_perm {spans occupied : List Occupied} {constraints : List Constraint}
    (h : applyConstraints spans constraints = .ok occupied) :
    occupied.Perm (untilSpan (bounds .greaterThan constraints).max? ++
      fromSpan (bounds .lessThan constraints).min? ++ (sides constraints ++ spans)) := by
  obtain ⟨f, hTook, rfl⟩ := took_of_applyConstraints h
  have hFrom : f.busyFrom = (bounds .lessThan constraints).min? :=
    hTook.busyFrom.trans (leastOf_none _)
  have hUntil : f.busyUntil = (bounds .greaterThan constraints).max? :=
    hTook.busyUntil.trans (greatestOf_none _)
  rw [← hFrom, ← hUntil]
  exact f.all_perm.trans (hTook.spans.append_left _)

theorem readable_of_applyConstraints {spans occupied : List Occupied}
    {constraints : List Constraint} (h : applyConstraints spans constraints = .ok occupied) :
    ∀ c ∈ constraints, c.second = none → ∃ t, Instant.ofStored? c.first.value = some t := by
  obtain ⟨f, hTook, rfl⟩ := took_of_applyConstraints h
  exact hTook.readable

theorem sorted_of_applyConstraints {spans occupied : List Occupied}
    {constraints : List Constraint} (hSorted : Sorted spans)
    (h : applyConstraints spans constraints = .ok occupied) : Sorted occupied := by
  obtain ⟨f, hTook, rfl⟩ := took_of_applyConstraints h
  exact Folding.sorted_all (hTook.sorted hSorted)

end Occupied

end TableTalk
