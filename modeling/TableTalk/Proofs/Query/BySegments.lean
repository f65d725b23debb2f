import Mathlib.Data.List.Induction
import Mathlib.Data.List.Perm.Basic
import Mathlib.Tactic.Push
import TableTalk.Proofs.Traversal
import TableTalk.Query.Plan

/-!
# Plans from segments

A query is compiled by taking its segments one after another into a plan, and the taking may
stop at any of them.  What comes out can be said of the segments alone, without the plan on
the way (`Plan.compile_by_segments`).

* A plan comes out if each segment is fine by itself, at most one of them asks for windows and
  one of them asks for something.  Then each part of the plan is made of what the segments
  give: constraints and columns one after another, the last ordering, the one request for
  windows (`Plan.ofSegments`).
* Otherwise the cause is that of the first segment which is refused, and this depends on the
  segments before it in one point, whether windows are asked for already
  (`Segment.Refused`).  That nothing is asked for comes last.

So the order of the segments does not decide whether a plan comes out.  It decides the order
of constraints and columns and which ordering is the last.
-/

namespace TableTalk

namespace Segment

/-! ### What is wrong with a segment -/

/-- Nothing is wrong with the segment on its column. -/
structure FineOn (now : Instant) (column : Column) (s : Segment) : Prop where
  filter : ∀ op, s.marker = .filter op →
    ∃ value cs, s.value = some value ∧ Filter.constraints now column op value = .ok cs
  slot : s.marker = .slot → column.type = .dateRange ∧
    ∃ value seconds, s.value = some value ∧ Duration.read value = some seconds

/-- Nothing is wrong with the segment by itself. -/
def Fine (now : Instant) (table : Table) (s : Segment) : Prop :=
  ∃ column, table.columnByLabel s.label = some column ∧ s.FineOn now column

/-- The causes for which a segment is refused.  All that counts of the segments before it is
whether windows are `asked` for already. -/
inductive Refused (now : Instant) (table : Table) (asked : Prop) (s : Segment) : Rejection → Prop
  | unknownColumn (hLabel : table.columnByLabel s.label = none) :
      Refused now table asked s (.unknownColumn s.label)
  | duplicateSlot {column : Column} (hLabel : table.columnByLabel s.label = some column)
      (hMarker : s.marker = .slot) (hAsked : asked) : Refused now table asked s .duplicateSlot
  | slotColumnNotRange {column : Column} (hLabel : table.columnByLabel s.label = some column)
      (hMarker : s.marker = .slot) (hAsked : ¬ asked) (hType : column.type ≠ .dateRange) :
      Refused now table asked s (.slotColumnNotRange column.displayName)
  | missingDuration {column : Column} (hLabel : table.columnByLabel s.label = some column)
      (hMarker : s.marker = .slot) (hAsked : ¬ asked) (hType : column.type = .dateRange)
      (hValue : s.value = none) : Refused now table asked s (.missingValue column.displayName)
  | invalidDuration {column : Column} {value : Text}
      (hLabel : table.columnByLabel s.label = some column)
      (hMarker : s.marker = .slot) (hAsked : ¬ asked) (hType : column.type = .dateRange)
      (hValue : s.value = some value) (hRead : Duration.read value = none) :
      Refused now table asked s (.invalidDuration value)
  | missingValue {column : Column} {op : FilterOp}
      (hLabel : table.columnByLabel s.label = some column) (hMarker : s.marker = .filter op)
      (hValue : s.value = none) : Refused now table asked s (.missingValue column.displayName)
  | invalidFilter {column : Column} {op : FilterOp} {value : Text} {cause : Rejection}
      (hLabel : table.columnByLabel s.label = some column) (hMarker : s.marker = .filter op)
      (hValue : s.value = some value)
      (hFilter : Filter.constraints now column op value = .error cause) :
      Refused now table asked s cause

/-- All segments are fine, and no two of them ask for windows. -/
structure Accepted (now : Instant) (table : Table) (segments : List Segment) : Prop where
  fine : ∀ s ∈ segments, s.Fine now table
  slots : segments.countP (·.marker = .slot) ≤ 1

/-- One of the segments asks for a column or for windows. -/
def AskSomething (segments : List Segment) : Prop :=
  ∃ s ∈ segments, s.marker = .project ∨ s.marker = .slot

/-! ### What a segment gives -/

/-- The constraints that a segment puts on the rows: a filter those of its column and value,
any other segment none. -/
def constraints (now : Instant) (table : Table) (s : Segment) : List Constraint :=
  match s.marker, table.columnByLabel s.label, s.value with
  | .filter op, some column, some value =>
      match Filter.constraints now column op value with
      | .ok cs => cs
      | .error _ => []
  | _, _, _ => []

/-- The column that a segment prints. -/
def printed? (table : Table) (s : Segment) : Option Column :=
  if s.marker = .project then table.columnByLabel s.label else none

/-- The ordering that a segment asks for, descending if its value opens with a `d`. -/
def ordering? (table : Table) (s : Segment) : Option OrderBy :=
  if s.marker = .order then
    (table.columnByLabel s.label).map fun column =>
      ⟨column.storageName,
        if s.value.bind List.head? = some 'd' then .descending else .ascending⟩
  else none

/-- The request for windows that a segment makes. -/
def slot? (table : Table) (s : Segment) : Option SlotRequest :=
  if s.marker = .slot then
    (table.columnByLabel s.label).bind fun column =>
      (s.value.bind Duration.read).map fun seconds => ⟨column, seconds⟩
  else none

variable {now : Instant} {table : Table} {s : Segment} {segments segments' : List Segment}

/-- A segment that asks for no second request for windows is fine or is refused. -/
theorem fine_or_refused (now : Instant) (table : Table) (asked : Prop) (s : Segment) :
    (s.Fine now table ∧ (s.marker = .slot → ¬ asked)) ∨
      ∃ cause, s.Refused now table asked cause := by
  cases hLabel : table.columnByLabel s.label with
  | none => exact Or.inr ⟨_, .unknownColumn hLabel⟩
  | some column =>
      -- The causes are tried in the order in which a segment is checked.
      cases hMarker : s.marker with
      | project | order =>
          exact Or.inl ⟨⟨column, hLabel, by simp [hMarker], by simp [hMarker]⟩, nofun⟩
      | slot =>
          by_cases hAsked : asked
          · exact Or.inr ⟨_, .duplicateSlot hLabel hMarker hAsked⟩
          by_cases hType : column.type = .dateRange
          · cases hValue : s.value with
            | none => exact Or.inr ⟨_, .missingDuration hLabel hMarker hAsked hType hValue⟩
            | some value =>
                cases hRead : Duration.read value with
                | none =>
                    exact Or.inr ⟨_, .invalidDuration hLabel hMarker hAsked hType hValue hRead⟩
                | some seconds =>
                    exact Or.inl ⟨⟨column, hLabel, by simp [hMarker],
                      fun _ => ⟨hType, value, seconds, hValue, hRead⟩⟩, fun _ => hAsked⟩
          · exact Or.inr ⟨_, .slotColumnNotRange hLabel hMarker hAsked hType⟩
      | filter op =>
          cases hValue : s.value with
          | none => exact Or.inr ⟨_, .missingValue hLabel hMarker hValue⟩
          | some value =>
              cases hFilter : Filter.constraints now column op value with
              | error cause => exact Or.inr ⟨_, .invalidFilter hLabel hMarker hValue hFilter⟩
              | ok cs =>
                  refine Or.inl ⟨⟨column, hLabel, fun op' hOp => ?_, by simp [hMarker]⟩, nofun⟩
                  obtain rfl := Marker.filter.inj (hMarker.symm.trans hOp)
                  exact ⟨value, cs, hValue, hFilter⟩

theorem Fine.printed?_eq_none_iff (h : s.Fine now table) :
    s.printed? table = none ↔ s.marker ≠ .project := by
  obtain ⟨column, hLabel, -⟩ := h
  simp [printed?, hLabel]

theorem Fine.slot?_eq_none_iff (h : s.Fine now table) :
    s.slot? table = none ↔ s.marker ≠ .slot := by
  obtain ⟨column, hLabel, hFine⟩ := h
  unfold slot?
  split
  · rename_i hMarker
    obtain ⟨-, value, seconds, hValue, hRead⟩ := hFine.slot hMarker
    simp [hLabel, hValue, hRead, hMarker]
  · rename_i hMarker
    simp [hMarker]

/-- Windows are looked for in the span column that the label names. -/
theorem Fine.column_of_slot? (h : s.Fine now table) {request : SlotRequest}
    (hRequest : s.slot? table = some request) :
    table.columnByLabel s.label = some request.column ∧ request.column.type = .dateRange := by
  obtain ⟨column, hLabel, hFine⟩ := h
  unfold slot? at hRequest
  split at hRequest
  · rename_i hMarker
    rw [hLabel] at hRequest
    obtain ⟨seconds, -, rfl⟩ := Option.map_eq_some_iff.mp hRequest
    exact ⟨hLabel, (hFine.slot hMarker).1⟩
  · cases hRequest

theorem accepted_append_singleton : Accepted now table (segments ++ [s]) ↔
    Accepted now table segments ∧ s.Fine now table ∧
      (s.marker = .slot → ¬ ∃ t ∈ segments, t.marker = .slot) := by
  have hSlots : (segments ++ [s]).countP (·.marker = .slot) ≤ 1 ↔
      segments.countP (·.marker = .slot) ≤ 1 ∧
        (s.marker = .slot → ¬ ∃ t ∈ segments, t.marker = .slot) := by
    have hNone : segments.countP (·.marker = .slot) = 0 ↔
        ¬ ∃ t ∈ segments, t.marker = .slot := by
      simp [List.countP_eq_zero]
    rw [← hNone, List.countP_append, List.countP_singleton]
    by_cases hMarker : s.marker = .slot
    · simp only [hMarker, decide_true, if_true, forall_const]
      omega
    · simp [hMarker]
  constructor
  · rintro ⟨hFine, hCount⟩
    obtain ⟨hCount, hFirst⟩ := hSlots.mp hCount
    exact ⟨⟨fun t ht => hFine t (List.mem_append_left _ ht), hCount⟩, hFine s (by simp), hFirst⟩
  · rintro ⟨⟨hFine, hCount⟩, hs, hFirst⟩
    refine ⟨fun t ht => ?_, hSlots.mpr ⟨hCount, hFirst⟩⟩
    rcases List.mem_append.mp ht with ht | ht
    · exact hFine t ht
    · rwa [List.mem_singleton.mp ht]

theorem accepted_iff_of_perm (h : segments.Perm segments') :
    Accepted now table segments ↔ Accepted now table segments' := by
  have hFine : (∀ s ∈ segments, s.Fine now table) ↔ ∀ s ∈ segments', s.Fine now table := by
    simp only [h.mem_iff]
  have hSlots : segments.countP (·.marker = .slot) = segments'.countP (·.marker = .slot) :=
    h.countP_eq _
  constructor
  · rintro ⟨hs, hCount⟩
    exact ⟨hFine.mp hs, hSlots ▸ hCount⟩
  · rintro ⟨hs, hCount⟩
    exact ⟨hFine.mpr hs, hSlots ▸ hCount⟩

theorem askSomething_iff_of_perm (h : segments.Perm segments') :
    AskSomething segments ↔ AskSomething segments' := by
  unfold AskSomething
  simp only [h.mem_iff]

end Segment

/-- Conditions are added one after another, and nothing else is changed. -/
theorem Query.foldl_addConstraint (q : Query) (cs : List Constraint) :
    cs.foldl addConstraint q = { q with constraints := q.constraints ++ cs } := by
  induction cs generalizing q with
  | nil => simp
  | cons c cs ih => simp [ih, addConstraint]

namespace Plan

variable {now : Instant} {table : Table} {p p' : Plan} {s : Segment}
  {segments segments' : List Segment}

/-- The plan with what a segment gives. -/
def withSegment (now : Instant) (table : Table) (p : Plan) (s : Segment) : Plan where
  query :=
    { constraints := p.query.constraints ++ s.constraints now table
      orderBy := (s.ordering? table).or p.query.orderBy }
  projection := p.projection ++ (s.printed? table).toList
  slot := p.slot.or (s.slot? table)

/-- The plan of what all segments give. -/
def ofSegments (now : Instant) (table : Table) (segments : List Segment) : Plan where
  query :=
    { constraints := segments.flatMap (Segment.constraints now table)
      orderBy := (segments.filterMap (Segment.ordering? table)).getLast? }
  projection := segments.filterMap (Segment.printed? table)
  slot := (segments.filterMap (Segment.slot? table)).head?

/-! ### One segment -/

theorem direction_eq (value : Option Text) :
    direction value =
      if value.bind List.head? = some 'd' then .descending else .ascending := by
  unfold direction
  split
  · rfl
  · rename_i hOther
    refine (if_neg fun hHead => ?_).symm
    obtain ⟨t, rfl, ht⟩ := Option.bind_eq_some_iff.mp hHead
    obtain ⟨rest, rfl⟩ := List.head?_eq_some_iff.mp ht
    exact hOther rest rfl

/-- A segment that is fine, and no second request for windows, is taken. -/
theorem take_of_fine (h : s.Fine now table)
    (hFree : s.marker = .slot → ¬ p.slot.isSome = true) :
    take now table p s = .ok (p.withSegment now table s) := by
  obtain ⟨column, hLabel, hFine⟩ := h
  cases hMarker : s.marker with
  | project =>
      simp [take, takeOn, withSegment, Segment.constraints, Segment.ordering?, Segment.printed?,
        Segment.slot?, hLabel, hMarker]
  | order =>
      simp [take, takeOn, withSegment, Segment.constraints, Segment.ordering?, Segment.printed?,
        Segment.slot?, hLabel, hMarker, direction_eq, Query.setOrderBy]
  | slot =>
      obtain ⟨hType, value, seconds, hValue, hRead⟩ := hFine.slot hMarker
      have hNone : p.slot = none := Option.not_isSome_iff_eq_none.mp (hFree hMarker)
      simp [take, takeOn, slotRequest, requiredValue, withSegment, Segment.constraints,
        Segment.ordering?, Segment.printed?, Segment.slot?, hLabel, hMarker, hNone, hType, hValue,
        hRead]
  | filter op =>
      obtain ⟨value, cs, hValue, hFilter⟩ := hFine.filter op hMarker
      simp [take, takeOn, requiredValue, withSegment, Segment.constraints, Segment.ordering?,
        Segment.printed?, Segment.slot?, hLabel, hMarker, hValue, hFilter,
        Query.foldl_addConstraint]

theorem take_of_refused {cause : Rejection} (h : s.Refused now table (p.slot.isSome = true) cause) :
    take now table p s = .error cause := by
  cases h with
  | unknownColumn hLabel => simp [take, hLabel]
  | duplicateSlot hLabel hMarker hAsked => simp [take, takeOn, hLabel, hMarker, hAsked]
  | slotColumnNotRange hLabel hMarker hAsked hType =>
      simp [take, takeOn, slotRequest, hLabel, hMarker, hAsked, hType]
  | missingDuration hLabel hMarker hAsked hType hValue =>
      simp [take, takeOn, slotRequest, requiredValue, hLabel, hMarker, hAsked, hType, hValue]
  | invalidDuration hLabel hMarker hAsked hType hValue hRead =>
      simp [take, takeOn, slotRequest, requiredValue, hLabel, hMarker, hAsked, hType, hValue, hRead]
  | missingValue hLabel hMarker hValue =>
      simp [take, takeOn, requiredValue, hLabel, hMarker, hValue]
  | invalidFilter hLabel hMarker hValue hFilter =>
      simp [take, takeOn, requiredValue, hLabel, hMarker, hValue, hFilter]

theorem take_eq_ok_iff : take now table p s = .ok p' ↔
    (s.Fine now table ∧ (s.marker = .slot → ¬ p.slot.isSome = true)) ∧
      p' = p.withSegment now table s := by
  constructor
  · intro h
    rcases Segment.fine_or_refused now table (p.slot.isSome = true) s with
      hFine | ⟨cause, hRefused⟩
    · exact ⟨hFine, Except.ok.inj (h.symm.trans (take_of_fine hFine.1 hFine.2))⟩
    · cases h.symm.trans (take_of_refused hRefused)
  · rintro ⟨hFine, rfl⟩
    exact take_of_fine hFine.1 hFine.2

theorem take_eq_error_iff {cause : Rejection} :
    take now table p s = .error cause ↔ s.Refused now table (p.slot.isSome = true) cause := by
  refine ⟨fun h => ?_, take_of_refused⟩
  rcases Segment.fine_or_refused now table (p.slot.isSome = true) s with
    hFine | ⟨cause', hRefused⟩
  · cases h.symm.trans (take_of_fine hFine.1 hFine.2)
  · obtain rfl := Except.error.inj (h.symm.trans (take_of_refused hRefused))
    exact hRefused

/-! ### All segments -/

theorem ofSegments_append_singleton (now : Instant) (table : Table) (segments : List Segment)
    (s : Segment) : ofSegments now table (segments ++ [s]) =
      (ofSegments now table segments).withSegment now table s := by
  have hOne {α : Type} (f : Segment → Option α) : [s].filterMap f = (f s).toList := by
    cases hs : f s <;> simp [hs]
  have hLast {α : Type} (o : Option α) : o.toList.getLast? = o := by
    cases o <;> rfl
  simp only [ofSegments, withSegment, List.flatMap_append, List.flatMap_singleton,
    List.filterMap_append, hOne, List.getLast?_append, hLast, List.head?_append, Option.head?_toList]

theorem projection_eq_nil_iff (h : ∀ s ∈ segments, s.Fine now table) :
    (ofSegments now table segments).projection = [] ↔
      ¬ ∃ s ∈ segments, s.marker = .project := by
  rw [ofSegments, List.filterMap_eq_nil_iff]
  push Not
  exact forall₂_congr fun s hs => (h s hs).printed?_eq_none_iff

theorem slot_isSome_iff (h : ∀ s ∈ segments, s.Fine now table) :
    (ofSegments now table segments).slot.isSome = true ↔ ∃ s ∈ segments, s.marker = .slot := by
  rw [← not_iff_not, Option.not_isSome_iff_eq_none, ofSegments, List.head?_eq_none_iff,
    List.filterMap_eq_nil_iff]
  push Not
  exact forall₂_congr fun s hs => (h s hs).slot?_eq_none_iff

theorem asksSomething_iff (h : ∀ s ∈ segments, s.Fine now table) :
    (ofSegments now table segments).asksSomething = true ↔ Segment.AskSomething segments := by
  have hProjection := projection_eq_nil_iff h
  unfold asksSomething Segment.AskSomething
  rw [Bool.or_eq_true, slot_isSome_iff h, Bool.not_eq_true', ← Bool.not_eq_true, List.isEmpty_iff,
    projection_eq_nil_iff h, not_not]
  simp only [and_or_left, exists_or]

/-- The segments are taken exactly if they are accepted, and then into the plan of what they
give. -/
theorem foldlM_take_eq_ok_iff : segments.foldlM (take now table) {} = .ok p ↔
    Segment.Accepted now table segments ∧ p = ofSegments now table segments := by
  -- The induction takes the last segment off, since it is taken into the plan of all others.
  induction segments using List.reverseRecOn generalizing p with
  | nil =>
      have hNone : Segment.Accepted now table [] := ⟨by simp, by simp⟩
      exact ⟨fun h => ⟨hNone, (Except.ok.inj h).symm⟩, fun h => congrArg Except.ok h.2.symm⟩
  | append_singleton segments s ih =>
      rw [Traversal.foldlM_append_singleton_ok, Segment.accepted_append_singleton,
        ofSegments_append_singleton]
      simp only [ih, take_eq_ok_iff]
      constructor
      · rintro ⟨q, ⟨hAccepted, rfl⟩, hFine, rfl⟩
        rw [slot_isSome_iff hAccepted.fine] at hFine
        exact ⟨⟨hAccepted, hFine⟩, rfl⟩
      · rintro ⟨⟨hAccepted, hFine⟩, rfl⟩
        rw [← slot_isSome_iff hAccepted.fine] at hFine
        exact ⟨_, ⟨hAccepted, rfl⟩, hFine, rfl⟩

/-- The segments are refused for the cause of the first that is refused. -/
theorem foldlM_take_eq_error_iff {cause : Rejection} :
    segments.foldlM (take now table) {} = .error cause ↔
      ∃ before s after, segments = before ++ s :: after ∧ Segment.Accepted now table before ∧
        s.Refused now table (∃ t ∈ before, t.marker = .slot) cause := by
  rw [Traversal.foldlM_eq_error_iff]
  constructor
  · rintro ⟨before, s, after, q, hSplit, hBefore, hTake⟩
    obtain ⟨hAccepted, rfl⟩ := foldlM_take_eq_ok_iff.mp hBefore
    rw [take_eq_error_iff, slot_isSome_iff hAccepted.fine] at hTake
    exact ⟨before, s, after, hSplit, hAccepted, hTake⟩
  · rintro ⟨before, s, after, hSplit, hAccepted, hRefused⟩
    rw [← slot_isSome_iff hAccepted.fine, ← take_eq_error_iff] at hRefused
    exact ⟨before, s, after, _, hSplit, foldlM_take_eq_ok_iff.mpr ⟨hAccepted, rfl⟩, hRefused⟩

theorem compile_of_accepted {args : Text} (h : Segment.Accepted now table (Segment.split args)) :
    compile now table args =
      if (ofSegments now table (Segment.split args)).asksSomething then
        .ok (ofSegments now table (Segment.split args))
      else .error .noOutputColumns := by
  rw [compile, foldlM_take_eq_ok_iff.mpr ⟨h, rfl⟩]

theorem compile_eq_ok_iff {args : Text} : compile now table args = .ok p ↔
    Segment.Accepted now table (Segment.split args) ∧ Segment.AskSomething (Segment.split args) ∧
      p = ofSegments now table (Segment.split args) := by
  constructor
  · intro h
    unfold compile at h
    split at h
    · cases h
    · rename_i q hFold
      obtain ⟨hAccepted, rfl⟩ := foldlM_take_eq_ok_iff.mp hFold
      split at h
      · rename_i hAsks
        exact ⟨hAccepted, (asksSomething_iff hAccepted.fine).mp hAsks, (Except.ok.inj h).symm⟩
      · cases h
  · rintro ⟨hAccepted, hAsks, rfl⟩
    rw [compile_of_accepted hAccepted, if_pos ((asksSomething_iff hAccepted.fine).mpr hAsks)]

theorem compile_eq_error_iff {args : Text} {cause : Rejection} :
    compile now table args = .error cause ↔
      (∃ before s after, Segment.split args = before ++ s :: after ∧
        Segment.Accepted now table before ∧
        s.Refused now table (∃ t ∈ before, t.marker = .slot) cause) ∨
      Segment.Accepted now table (Segment.split args) ∧
        ¬ Segment.AskSomething (Segment.split args) ∧ cause = .noOutputColumns := by
  constructor
  · intro h
    unfold compile at h
    split at h
    · rename_i e hFold
      obtain rfl := Except.error.inj h
      exact Or.inl (foldlM_take_eq_error_iff.mp hFold)
    · rename_i q hFold
      obtain ⟨hAccepted, rfl⟩ := foldlM_take_eq_ok_iff.mp hFold
      split at h
      · cases h
      · rename_i hAsks
        exact Or.inr ⟨hAccepted, mt (asksSomething_iff hAccepted.fine).mpr hAsks,
          (Except.error.inj h).symm⟩
  · rintro (hFirst | ⟨hAccepted, hAsks, rfl⟩)
    · rw [compile, foldlM_take_eq_error_iff.mpr hFirst]
    · rw [compile_of_accepted hAccepted,
        if_neg (mt (asksSomething_iff hAccepted.fine).mp hAsks)]

/-! ### Segments in another order -/

/-- The request for windows is that of the only segment that makes one. -/
theorem slot_of_perm (h : Segment.Accepted now table segments)
    (hPerm : segments.Perm segments') :
    (ofSegments now table segments).slot = (ofSegments now table segments').slot := by
  have hLength : (segments.filterMap (Segment.slot? table)).length ≤ 1 := by
    rw [List.length_filterMap_eq_countP]
    refine Nat.le_trans (List.countP_mono_left fun s _ hSome => ?_) h.slots
    unfold Segment.slot? at hSome
    split at hSome
    · rename_i hMarker
      exact decide_eq_true hMarker
    · cases hSome
  -- Lists of at most one request that are permutations of each other are equal.
  have hRequests := hPerm.filterMap (Segment.slot? table)
  unfold ofSegments
  rcases hSlots : segments.filterMap (Segment.slot? table) with _ | ⟨request, _ | ⟨second, rest⟩⟩
  · rw [hSlots] at hRequests
    rw [hRequests.symm.eq_nil]
  · rw [hSlots] at hRequests
    rw [hRequests.symm.eq_singleton]
  · rw [hSlots] at hLength
    simp at hLength

theorem orderBy_eq_none_of_perm (hPerm : segments.Perm segments') :
    (ofSegments now table segments).query.orderBy = none ↔
      (ofSegments now table segments').query.orderBy = none := by
  unfold ofSegments
  simp only [List.getLast?_eq_none_iff, List.filterMap_eq_nil_iff, hPerm.mem_iff]

/-- The ordering that counts is asked for in any order of the segments. -/
theorem exists_ordering_of_perm (hPerm : segments.Perm segments')
    {o : OrderBy} (h : (ofSegments now table segments').query.orderBy = some o) :
    ∃ s ∈ segments, s.ordering? table = some o := by
  obtain ⟨s, hs, hOrder⟩ := List.mem_filterMap.mp (List.mem_of_getLast? h)
  exact ⟨s, hPerm.mem_iff.mpr hs, hOrder⟩

/-- **Plans are made of segments.**  A plan comes out exactly if all segments are fine, at most
one asks for windows and one asks for something, and then it is made of what the segments give.
Otherwise the cause is that of the first segment that is refused or, with all of them accepted,
that nothing is asked for.  So for the same segments in another order a plan comes out as well,
and it differs in nothing but the order of constraints and columns and in which ordering is the
last. -/
theorem compile_by_segments (now : Instant) (table : Table) :
    (∀ args plan, compile now table args = .ok plan ↔
      Segment.Accepted now table (Segment.split args) ∧ Segment.AskSomething (Segment.split args) ∧
        plan = ofSegments now table (Segment.split args)) ∧
    (∀ args cause, compile now table args = .error cause ↔
      (∃ before s after, Segment.split args = before ++ s :: after ∧
        Segment.Accepted now table before ∧
        s.Refused now table (∃ t ∈ before, t.marker = .slot) cause) ∨
      Segment.Accepted now table (Segment.split args) ∧
        ¬ Segment.AskSomething (Segment.split args) ∧ cause = .noOutputColumns) ∧
    ∀ args args', (Segment.split args).Perm (Segment.split args') →
      ((∃ plan, compile now table args = .ok plan) ↔ ∃ plan, compile now table args' = .ok plan) ∧
      ∀ plan plan', compile now table args = .ok plan → compile now table args' = .ok plan' →
        plan.query.constraints.Perm plan'.query.constraints ∧
        plan.projection.Perm plan'.projection ∧
        plan.slot = plan'.slot ∧
        (plan.query.orderBy = none ↔ plan'.query.orderBy = none) ∧
        ∀ o, plan'.query.orderBy = some o → ∃ s ∈ Segment.split args, s.ordering? table = some o := by
  refine ⟨fun args plan => compile_eq_ok_iff, fun args cause => compile_eq_error_iff,
    fun args args' hPerm => ⟨?_, fun plan plan' hPlan hPlan' => ?_⟩⟩
  · simp only [compile_eq_ok_iff, exists_and_left, exists_eq, and_true]
    rw [Segment.accepted_iff_of_perm hPerm, Segment.askSomething_iff_of_perm hPerm]
  · obtain ⟨hAccepted, -, rfl⟩ := compile_eq_ok_iff.mp hPlan
    obtain ⟨-, -, rfl⟩ := compile_eq_ok_iff.mp hPlan'
    exact ⟨hPerm.flatMap_right _, hPerm.filterMap _, slot_of_perm hAccepted hPerm,
      orderBy_eq_none_of_perm hPerm, fun o => exists_ordering_of_perm hPerm⟩

/-- A shelf with titles, pages and the spans when it is lent. -/
def shelf : Table :=
  ⟨"shelf".toList, "shelf".toList,
    [{ storageName := ['t'], displayName := ['T'], type := .text },
      { storageName := ['p'], displayName := ['P'], type := .number },
      { storageName := ['l'], displayName := ['L'], type := .dateRange }], none⟩

/-- When the shelf is asked. -/
def shelfNow : Instant :=
  Instant.midnight ⟨2025, 6, 3, by decide⟩

/-- A question for two columns and windows, with two filters and two orderings. -/
def shelfQuestion : Text :=
  " ?T =T Elm ~T d ?P /L 1d ~P >P 100".toList

/-- The same segments, from the last to the first. -/
def shelfQuestionBack : Text :=
  " >P 100 ~P /L 1d ?P ~T d =T Elm ?T".toList

/-- Read from the back, the question is ordered by the column that came first. -/
theorem compile_by_segments_back :
    (Segment.split shelfQuestion).Perm (Segment.split shelfQuestionBack) ∧
    ∃ plan plan', compile shelfNow shelf shelfQuestion = .ok plan ∧
      compile shelfNow shelf shelfQuestionBack = .ok plan' ∧
      plan.query.constraints.Perm plan'.query.constraints ∧
      plan.projection.Perm plan'.projection ∧ plan.slot = plan'.slot ∧
      plan.query.orderBy = some ⟨['p'], .ascending⟩ ∧
      plan'.query.orderBy = some ⟨['t'], .descending⟩ := by
  have hBack : Segment.split shelfQuestionBack = (Segment.split shelfQuestion).reverse := by decide
  have hPerm : (Segment.split shelfQuestion).Perm (Segment.split shelfQuestionBack) := by
    rw [hBack]
    exact (List.reverse_perm _).symm
  have hPlan : compile shelfNow shelf shelfQuestion =
      .ok (ofSegments shelfNow shelf (Segment.split shelfQuestion)) := by decide +kernel
  have hPlanBack : compile shelfNow shelf shelfQuestionBack =
      .ok (ofSegments shelfNow shelf (Segment.split shelfQuestionBack)) := by decide +kernel
  obtain ⟨hConstraints, hProjection, hSlot, -, -⟩ :=
    ((compile_by_segments shelfNow shelf).2.2 _ _ hPerm).2 _ _ hPlan hPlanBack
  exact ⟨hPerm, _, _, hPlan, hPlanBack, hConstraints, hProjection, hSlot, by decide +kernel,
    by decide +kernel⟩

end Plan

end TableTalk
