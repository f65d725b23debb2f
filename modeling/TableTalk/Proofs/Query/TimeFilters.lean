import TableTalk.Proofs.Query.Found
import TableTalk.Proofs.Time.RoundTrip

/-!
# What filters on times mean

Filters compare texts.  On columns of times they compare times all the same: which
stored cells a filter finds is told by the order of instants alone.

A cell that is an instant stands before a typed span, within it or after it, and `<`,
`=` and `>` find exactly these (`Filter.finds_instant`).  A cell that is a span is placed
by its start, whatever its end (`Filter.finds_span`); the slash after the start sorts
below every character that a longer text of the same instant goes on with, so that a
start at the bound itself is not before it.

Both follow from the comparisons of texts that the operators ask for, with the ends of a
span (`finds_lessThan_interval` and its neighbours) or with an instant
(`finds_iff_holds`), and from the order of stored texts.
-/

namespace TableTalk

namespace Filter

variable {now : Instant} {column : Column} {op : FilterOp} {raw cell : Text}
variable {i : Interval} {x : Instant}

/-- The filter is accepted, and its constraints hold of a cell, character by character. -/
def Finds (now : Instant) (column : Column) (op : FilterOp) (raw cell : Text) : Prop :=
  ∃ cs, constraints now column op raw = .ok cs ∧ Constraint.allHold false cs cell = true

theorem finds_iff_allHold {cs : List Constraint} (h : constraints now column op raw = .ok cs) :
    Finds now column op raw cell ↔ Constraint.allHold false cs cell = true := by
  constructor
  · rintro ⟨cs', hAccepted, hHold⟩
    obtain rfl : cs = cs' := Except.ok.inj (h.symm.trans hAccepted)
    exact hHold
  · exact fun hHold => ⟨cs, h, hHold⟩

/-! ### Comparisons of texts -/

theorem isTemporal_of_dateRange (hType : column.type = .dateRange) :
    column.type.isTemporal = true := by
  rw [hType]
  rfl

theorem constraints_of_interval (hTime : column.type.isTemporal = true)
    (hSpan : Interval.ofTyped? now raw = some i) :
    constraints now column op raw = .ok (ofInterval column op i) := by
  unfold constraints
  rw [if_pos hTime, hSpan]

theorem constraints_of_instant (hTime : column.type.isTemporal = true)
    (hSpan : Interval.ofTyped? now raw = none) (hInstant : Instant.ofTyped? now raw = some x) :
    constraints now column op raw = ofInstant column op x := by
  unfold constraints
  rw [if_pos hTime, hSpan, hInstant]

/-- A filter on times is accepted only with a text that names a span or an instant. -/
theorem exists_time_of_constraints (hTime : column.type.isTemporal = true)
    {cs : List Constraint} (h : constraints now column op raw = .ok cs) :
    (∃ i, Interval.ofTyped? now raw = some i) ∨ ∃ x, Instant.ofTyped? now raw = some x := by
  unfold constraints at h
  rw [if_pos hTime] at h
  cases hSpan : Interval.ofTyped? now raw with
  | some i => exact Or.inl ⟨i, rfl⟩
  | none =>
      cases hInstant : Instant.ofTyped? now raw with
      | some x => exact Or.inr ⟨x, rfl⟩
      | none =>
          rw [hSpan, hInstant] at h
          cases h

section Span

variable (hTime : column.type.isTemporal = true) (hSpan : Interval.ofTyped? now raw = some i)
include hTime hSpan

theorem finds_lessThan_interval :
    Finds now column .lessThan raw cell ↔ cell < i.start.stored := by
  rw [finds_iff_allHold (constraints_of_interval hTime hSpan), ← Comparison.holds_lessThan]
  simp [ofInterval]

theorem finds_greaterThan_interval :
    Finds now column .greaterThan raw cell ↔ ¬ cell < i.stop.stored := by
  rw [finds_iff_allHold (constraints_of_interval hTime hSpan),
    ← Comparison.holds_greaterThanEquals]
  simp [ofInterval]

theorem finds_equals_interval (hType : column.type ≠ .dateRange) :
    Finds now column .equals raw cell ↔ ¬ cell < i.start.stored ∧ cell < i.stop.stored := by
  rw [finds_iff_allHold (constraints_of_interval hTime hSpan),
    ← Comparison.holds_greaterThanEquals, ← Comparison.holds_lessThan]
  simp [ofInterval, hType]

theorem finds_notEquals_interval (hType : column.type ≠ .dateRange) :
    Finds now column .notEquals raw cell ↔ cell < i.start.stored ∨ ¬ cell < i.stop.stored := by
  rw [finds_iff_allHold (constraints_of_interval hTime hSpan),
    ← Comparison.holds_greaterThanEquals, ← Comparison.holds_lessThan]
  simp [ofInterval, hType]

end Span

/-- Spans are compared as a whole where spans are kept. -/
theorem finds_equals_span (hType : column.type = .dateRange)
    (hSpan : Interval.ofTyped? now raw = some i) :
    (Finds now column .equals raw cell ↔ cell = i.stored) ∧
      (Finds now column .notEquals raw cell ↔ cell ≠ i.stored) := by
  have hTime := isTemporal_of_dateRange hType
  rw [finds_iff_allHold (constraints_of_interval hTime hSpan),
    finds_iff_allHold (constraints_of_interval hTime hSpan), ← Comparison.holds_equals,
    ← Comparison.holds_notEquals]
  simp [ofInterval, hType]

/-- A filter with an instant is accepted, unless it asks for a span that is equal to it. -/
theorem constraints_accepted (hTime : column.type.isTemporal = true)
    (hSpan : Interval.ofTyped? now raw = none) (hInstant : Instant.ofTyped? now raw = some x)
    (hOp : ¬ (op = .equals ∧ column.type = .dateRange)) :
    constraints now column op raw =
      .ok [.single column.storageName (comparator op) x.stored] := by
  rw [constraints_of_instant hTime hSpan hInstant, ofInstant, if_neg hOp]

/-- Such a filter compares cells with the text of the instant. -/
theorem finds_iff_holds (hTime : column.type.isTemporal = true)
    (hSpan : Interval.ofTyped? now raw = none) (hInstant : Instant.ofTyped? now raw = some x)
    (hOp : ¬ (op = .equals ∧ column.type = .dateRange)) :
    Finds now column op raw cell ↔
      Comparison.holds false ⟨comparator op, x.stored⟩ cell = true := by
  rw [finds_iff_allHold (constraints_accepted hTime hSpan hInstant hOp)]
  simp

/-! ### Cells that are instants -/

/-- Before a span, within it and after it: an instant is in one of the three. -/
theorem existsUnique_of_ends {t : Instant} {p : FilterOp → Prop} (hle : i.start ≤ i.stop)
    (hBefore : p .lessThan ↔ t < i.start) (hWithin : p .equals ↔ i.start ≤ t ∧ t < i.stop)
    (hAfter : p .greaterThan ↔ i.stop ≤ t) : ∃! op, op ≠ .notEquals ∧ p op := by
  rcases lt_or_ge t i.start with hlt | hge
  · refine ⟨.lessThan, ⟨by decide, hBefore.mpr hlt⟩, ?_⟩
    rintro op ⟨hOp, hHolds⟩
    cases op with
    | equals => exact absurd (hWithin.mp hHolds).1 (not_le.mpr hlt)
    | lessThan => rfl
    | greaterThan => exact absurd (hAfter.mp hHolds) (not_le.mpr (hlt.trans_le hle))
    | notEquals => exact absurd rfl hOp
  · rcases lt_or_ge t i.stop with hWithinStop | hLate
    · refine ⟨.equals, ⟨by decide, hWithin.mpr ⟨hge, hWithinStop⟩⟩, ?_⟩
      rintro op ⟨hOp, hHolds⟩
      cases op with
      | equals => rfl
      | lessThan => exact absurd (hBefore.mp hHolds) (not_lt.mpr hge)
      | greaterThan => exact absurd (hAfter.mp hHolds) (not_le.mpr hWithinStop)
      | notEquals => exact absurd rfl hOp
    · refine ⟨.greaterThan, ⟨by decide, hAfter.mpr hLate⟩, ?_⟩
      rintro op ⟨hOp, hHolds⟩
      cases op with
      | equals => exact absurd (hWithin.mp hHolds).2 (not_lt.mpr hLate)
      | lessThan => exact absurd (hBefore.mp hHolds) (not_lt.mpr hge)
      | greaterThan => rfl
      | notEquals => exact absurd rfl hOp

/-- **Filters on single times.**  Of the cells that hold an instant, `<` finds those before
a typed span, `=` those within it, `>` those from its end on, and `!` those that `=` does
not find, so that each cell is found by exactly one of the first three.  With a text that
is an instant only, the filters compare with that instant. -/
theorem finds_instant {now : Instant} {column : Column} {raw : Text} {t : Instant}
    (hType : column.type ∈ [ColumnType.date, .dateTime, .time])
    (hWhole : t.IsWhole) (hYear : t.HasFourDigitYear) :
    (∀ op cs, constraints now column op raw = .ok cs →
      (∃ i, Interval.ofTyped? now raw = some i) ∨ ∃ x, Instant.ofTyped? now raw = some x) ∧
    (∀ i, Interval.ofTyped? now raw = some i → i.start ≤ i.stop →
      i.start.HasFourDigitYear → i.stop.HasFourDigitYear →
      (∀ op, ∃ cs, constraints now column op raw = .ok cs) ∧
      (Finds now column .lessThan raw t.stored ↔ t < i.start) ∧
      (Finds now column .equals raw t.stored ↔ i.start ≤ t ∧ t < i.stop) ∧
      (Finds now column .greaterThan raw t.stored ↔ i.stop ≤ t) ∧
      (∃! op, op ≠ .notEquals ∧ Finds now column op raw t.stored) ∧
      (Finds now column .notEquals raw t.stored ↔ ¬ Finds now column .equals raw t.stored)) ∧
    (∀ x, Interval.ofTyped? now raw = none → Instant.ofTyped? now raw = some x →
      x.IsWhole → x.HasFourDigitYear →
      (∀ op, ∃ cs, constraints now column op raw = .ok cs) ∧
      (Finds now column .lessThan raw t.stored ↔ t < x) ∧
      (Finds now column .equals raw t.stored ↔ t = x) ∧
      (Finds now column .greaterThan raw t.stored ↔ x < t) ∧
      (Finds now column .notEquals raw t.stored ↔ t ≠ x)) := by
  obtain ⟨hTime, hSingle⟩ : column.type.isTemporal = true ∧ column.type ≠ .dateRange := by
    simp only [List.mem_cons, List.not_mem_nil, or_false] at hType
    rcases hType with hType | hType | hType <;> rw [hType] <;> exact ⟨rfl, by decide⟩
  refine ⟨fun op cs => exists_time_of_constraints hTime, ?_, ?_⟩
  · -- A typed span has whole ends, so that texts sort about them as instants do.
    intro i hSpan hle hStartYear hStopYear
    obtain ⟨hStartWhole, hStopWhole⟩ := Interval.isWhole_of_ofTyped? hSpan
    have hStart := Instant.stored_lt_stored_iff hStartWhole hYear hStartYear
    have hStop := Instant.stored_lt_stored_iff hStopWhole hYear hStopYear
    have hBefore := (finds_lessThan_interval hTime hSpan).trans hStart
    have hWithin : Finds now column .equals raw t.stored ↔ i.start ≤ t ∧ t < i.stop := by
      rw [finds_equals_interval hTime hSpan hSingle, hStart, hStop, not_lt]
    have hAfter : Finds now column .greaterThan raw t.stored ↔ i.stop ≤ t := by
      rw [finds_greaterThan_interval hTime hSpan, hStop, not_lt]
    have hOther : Finds now column .notEquals raw t.stored ↔
        ¬ Finds now column .equals raw t.stored := by
      rw [finds_notEquals_interval hTime hSpan hSingle, finds_equals_interval hTime hSpan hSingle,
        not_and_or, not_not]
    exact ⟨fun op => ⟨_, constraints_of_interval hTime hSpan⟩, hBefore, hWithin, hAfter,
      existsUnique_of_ends hle hBefore hWithin hAfter, hOther⟩
  · intro x hSpan hInstant hxWhole hxYear
    have hCompare : ∀ op, Finds now column op raw t.stored ↔
        Comparison.holds false ⟨comparator op, x.stored⟩ t.stored = true :=
      fun op => finds_iff_holds hTime hSpan hInstant fun h => hSingle h.2
    have hEqual : t.stored = x.stored ↔ t = x := Instant.stored_inj hWhole hxWhole
    refine ⟨fun op => ⟨_, constraints_accepted hTime hSpan hInstant fun h => hSingle h.2⟩,
      ?_, ?_, ?_, ?_⟩
    · rw [hCompare, ← Instant.stored_lt_stored_iff hxWhole hYear hxYear]
      exact Comparison.holds_lessThan
    · rw [hCompare, ← hEqual]
      exact Comparison.holds_equals
    · rw [hCompare, ← Instant.stored_lt_stored_iff hWhole hxYear hYear]
      exact Comparison.holds_greaterThan
    · rw [hCompare, Ne, ← hEqual]
      exact Comparison.holds_notEquals

/-- A column that keeps days. -/
def arrivals : Column :=
  { storageName := ['a'], displayName := ['A'], type := .date }

/-- Half a minute into a day in July. -/
def julyMorning : Instant :=
  ⟨⟨2024, 7, 3, by decide⟩, 30, 0, by decide, by decide⟩

/-- The day that `"2024-07-03"` names. -/
def julyDay : Interval :=
  ⟨Instant.midnight ⟨2024, 7, 3, by decide⟩, Instant.midnight ⟨2024, 7, 4, by decide⟩⟩

/-- The day holds the instant, which is not after it.  The instant itself is equal to the one
that is typed, which is not before it. -/
theorem finds_instant_july :
    Interval.ofTyped? julyMorning "2024-07-03".toList = some julyDay ∧
    Finds julyMorning arrivals .equals "2024-07-03".toList julyMorning.stored ∧
    ¬ Finds julyMorning arrivals .greaterThan "2024-07-03".toList julyMorning.stored ∧
    Interval.ofTyped? julyMorning "2024-07-03T00:00:30".toList = none ∧
    Instant.ofTyped? julyMorning "2024-07-03T00:00:30".toList = some julyMorning ∧
    Finds julyMorning arrivals .equals "2024-07-03T00:00:30".toList julyMorning.stored ∧
    ¬ Finds julyMorning arrivals .greaterThan "2024-07-03T00:00:30".toList julyMorning.stored := by
  have hYear : ∀ t ∈ [julyMorning, julyDay.start, julyDay.stop], t.HasFourDigitYear := by
    unfold Instant.HasFourDigitYear
    decide
  have hFinds := fun raw => @finds_instant julyMorning arrivals raw julyMorning
    (by decide) (Or.inl rfl) (hYear julyMorning (by decide))
  have hDay : Interval.ofTyped? julyMorning "2024-07-03".toList = some julyDay := by
    decide +kernel
  have hNoSpan : Interval.ofTyped? julyMorning "2024-07-03T00:00:30".toList = none := by
    decide +kernel
  have hMoment : Instant.ofTyped? julyMorning "2024-07-03T00:00:30".toList = some julyMorning := by
    decide +kernel
  obtain ⟨-, -, hWithin, hAfterDay, -⟩ := (hFinds _).2.1 julyDay hDay (by decide +kernel)
    (hYear _ (by simp)) (hYear _ (by simp))
  obtain ⟨-, -, hEqual, hAfter, -⟩ := (hFinds _).2.2 julyMorning hNoSpan hMoment (Or.inl rfl)
    (hYear _ (by simp))
  exact ⟨hDay, hWithin.mpr (by decide +kernel), mt hAfterDay.mp (by decide +kernel), hNoSpan,
    hMoment, hEqual.mpr rfl, mt hAfter.mp (lt_irrefl _)⟩

/-! ### Cells that are spans -/

/-- No span is equal to an instant, and a filter that would ask for one is refused. -/
theorem constraints_equals_instant (hType : column.type = .dateRange)
    (hSpan : Interval.ofTyped? now raw = none) (hInstant : Instant.ofTyped? now raw = some x) :
    constraints now column .equals raw =
      .error (.rangeEqualityNeedsInterval column.displayName) := by
  have hTime := isTemporal_of_dateRange hType
  rw [constraints_of_instant hTime hSpan hInstant, ofInstant, if_pos ⟨rfl, hType⟩]

/-- The text of a span is that of no instant. -/
theorem span_stored_ne (j : Interval) (x : Instant) : j.stored ≠ x.stored := by
  intro hText
  have hSlash : '/' ∈ j.stored := List.mem_append_right _ List.mem_cons_self
  rw [hText] at hSlash
  exact x.slash_not_mem_stored hSlash

/-- **Filters on spans.**  Of the cells that hold a span, `<` finds those that start before
a typed span and `>` those that start at its end or later; `=` finds those with the same two
ends and `!` the others.  With a text that is an instant only, `=` is refused, `!` finds
every cell, and `<` and `>` part the cells by their starts, a start at the instant itself
going to `>`. -/
theorem finds_span {now : Instant} {column : Column} {raw : Text} {j : Interval}
    (hType : column.type = .dateRange)
    (hStartWhole : j.start.IsWhole) (hStopWhole : j.stop.IsWhole)
    (hStartYear : j.start.HasFourDigitYear) :
    (∀ i, Interval.ofTyped? now raw = some i →
      i.start.HasFourDigitYear → i.stop.HasFourDigitYear →
      (∀ op, ∃ cs, constraints now column op raw = .ok cs) ∧
      (Finds now column .equals raw j.stored ↔ j.start = i.start ∧ j.stop = i.stop) ∧
      (Finds now column .notEquals raw j.stored ↔ ¬ (j.start = i.start ∧ j.stop = i.stop)) ∧
      (Finds now column .lessThan raw j.stored ↔ j.start < i.start) ∧
      (Finds now column .greaterThan raw j.stored ↔ i.stop ≤ j.start)) ∧
    (∀ x, Interval.ofTyped? now raw = none → Instant.ofTyped? now raw = some x →
      x.IsWhole → x.HasFourDigitYear →
      constraints now column .equals raw =
        .error (.rangeEqualityNeedsInterval column.displayName) ∧
      (∀ op, op ≠ .equals → ∃ cs, constraints now column op raw = .ok cs) ∧
      Finds now column .notEquals raw j.stored ∧
      (Finds now column .lessThan raw j.stored ↔ j.start < x) ∧
      (Finds now column .greaterThan raw j.stored ↔ x ≤ j.start) ∧
      Xor (Finds now column .lessThan raw j.stored)
        (Finds now column .greaterThan raw j.stored)) := by
  have hTime := isTemporal_of_dateRange hType
  constructor
  · -- The text of the cell opens with its start and a slash, which decides both bounds.
    intro i hSpan hFromYear hToYear
    have hWhole := Interval.isWhole_of_ofTyped? hSpan
    have hSame : j.stored = i.stored ↔ j.start = i.start ∧ j.stop = i.stop :=
      Interval.stored_inj ⟨hStartWhole, hStopWhole⟩ hWhole
    have hFrom : j.stored < i.start.stored ↔ j.start < i.start :=
      Instant.append_slash_lt_stored_iff hWhole.1 hStartYear hFromYear
    have hTo : j.stored < i.stop.stored ↔ j.start < i.stop :=
      Instant.append_slash_lt_stored_iff hWhole.2 hStartYear hToYear
    obtain ⟨hEqual, hOther⟩ := finds_equals_span hType hSpan
    refine ⟨fun op => ⟨_, constraints_of_interval hTime hSpan⟩, hEqual.trans hSame,
      hOther.trans (not_congr hSame), ?_, ?_⟩
    · rw [finds_lessThan_interval hTime hSpan, hFrom]
    · rw [finds_greaterThan_interval hTime hSpan, hTo, not_lt]
  · intro x hSpan hInstant hxWhole hxYear
    have hCompare : ∀ op, op ≠ .equals → (Finds now column op raw j.stored ↔
        Comparison.holds false ⟨comparator op, x.stored⟩ j.stored = true) :=
      fun op hOp => finds_iff_holds hTime hSpan hInstant fun h => hOp h.1
    have hText : j.stored < x.stored ↔ j.start < x :=
      Instant.append_slash_lt_stored_iff hxWhole hStartYear hxYear
    have hOther : Finds now column .notEquals raw j.stored :=
      (hCompare .notEquals (by decide)).mpr (Comparison.holds_notEquals.mpr (span_stored_ne j x))
    have hBefore : Finds now column .lessThan raw j.stored ↔ j.start < x :=
      (hCompare .lessThan (by decide)).trans (Comparison.holds_lessThan.trans hText)
    have hFrom : Finds now column .greaterThan raw j.stored ↔ x ≤ j.start := by
      -- The texts differ, so that what does not sort before sorts after.
      have hOrder : x.stored < j.stored ↔ ¬ j.stored < x.stored :=
        ⟨lt_asymm, fun h => lt_of_le_of_ne (not_lt.mp h) (span_stored_ne j x).symm⟩
      rw [hCompare .greaterThan (by decide), ← not_lt, ← hText, ← hOrder]
      exact Comparison.holds_greaterThan
    refine ⟨constraints_equals_instant hType hSpan hInstant, fun op hOp =>
      ⟨_, constraints_accepted hTime hSpan hInstant fun h => hOp h.1⟩, hOther, hBefore, hFrom, ?_⟩
    rw [hBefore, hFrom, ← not_lt]
    exact xor_not_right.mpr Iff.rfl

/-- A column that keeps spans. -/
def stays : Column :=
  { storageName := ['s'], displayName := ['S'], type := .dateRange }

/-- The day is equal to the one that is typed.  A span that starts at the typed instant itself
is after it, and no span is equal to it. -/
theorem finds_span_july :
    Finds julyMorning stays .equals "2024-07-03".toList julyDay.stored ∧
    Finds julyMorning stays .greaterThan "2024-07-03T00:00:30".toList
      (Interval.stored ⟨julyMorning, julyDay.stop⟩) ∧
    constraints julyMorning stays .equals "2024-07-03T00:00:30".toList =
      .error (.rangeEqualityNeedsInterval ['S']) := by
  have hYear : ∀ t ∈ [julyMorning, julyDay.start, julyDay.stop], t.HasFourDigitYear := by
    unfold Instant.HasFourDigitYear
    decide
  obtain ⟨hDay, -⟩ := @finds_span julyMorning stays "2024-07-03".toList julyDay rfl (Or.inl rfl)
    (Or.inl rfl) (hYear _ (by simp))
  obtain ⟨-, hSame, -⟩ := hDay julyDay (by decide +kernel) (hYear _ (by simp)) (hYear _ (by simp))
  obtain ⟨-, hMoment⟩ := @finds_span julyMorning stays "2024-07-03T00:00:30".toList
    ⟨julyMorning, julyDay.stop⟩ rfl (Or.inl rfl) (Or.inl rfl) (hYear _ (by simp))
  obtain ⟨hRefused, -, -, -, hAfter, -⟩ := hMoment julyMorning (by decide +kernel)
    (by decide +kernel) (Or.inl rfl) (hYear _ (by simp))
  exact ⟨hSame.mpr ⟨rfl, rfl⟩, hAfter.mpr le_rfl, hRefused⟩

end Filter

end TableTalk
