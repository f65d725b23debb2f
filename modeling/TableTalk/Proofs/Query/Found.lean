import Mathlib.Data.Char
import Mathlib.Data.List.Lex
import TableTalk.Query.Filter
import TableTalk.Query.Match
import TableTalk.Proofs.Time.Forms
import TableTalk.Proofs.Time.StoredOrder

/-!
# What is added is what an equality filter finds

An added value and the value of a filter are made from a typed text in different ways.
An add reads it as an instant first and keeps the start of a span; a filter reads it as
a span first and compares with both ends.  They agree all the same: the stored value of
a text satisfies the filter `=` with that text, and none of `<`, `>` and `!`
(`Filter.allHold_iff_equals`).

On columns that hold no times both keep the same value.  On the others the text is an
instant or a span, never both (`Instant.ofTyped?_eq_none`), and then the comparison of
stored texts is the comparison of times (`Instant.stored_lt_stored_iff`).
-/

namespace TableTalk

/-! ### Comparisons of cells -/

namespace Text

theorem order_eq_lt_iff {a b : Text} : order a b = .lt ↔ a < b := by
  unfold order
  split
  · rename_i hlt
    exact iff_of_true rfl hlt
  · rename_i hlt
    split
    · exact iff_of_false nofun hlt
    · exact iff_of_false nofun hlt

theorem order_eq_eq_iff {a b : Text} : order a b = .eq ↔ a = b := by
  unfold order
  split
  · rename_i hlt
    refine iff_of_false nofun ?_
    rintro rfl
    exact List.lt_irrefl a hlt
  · split
    · rename_i hEq
      exact iff_of_true rfl hEq
    · rename_i hEq
      exact iff_of_false nofun hEq

theorem order_eq_gt_iff {a b : Text} : order a b = .gt ↔ b < a := by
  rcases lt_trichotomy a b with hlt | rfl | hgt
  · rw [order_eq_lt_iff.mpr hlt]
    exact iff_of_false nofun (lt_asymm hlt)
  · rw [order_eq_eq_iff.mpr rfl]
    exact iff_of_false nofun (lt_irrefl a)
  · have hNot : ¬ order a b = .lt ∧ ¬ order a b = .eq :=
      ⟨mt order_eq_lt_iff.mp (lt_asymm hgt), mt order_eq_eq_iff.mp hgt.ne'⟩
    cases hOrder : order a b with
    | lt => exact absurd hOrder hNot.1
    | eq => exact absurd hOrder hNot.2
    | gt => exact iff_of_true rfl hgt

end Text

/-- A cell is equal to itself, as a number and as a text. -/
theorem cellOrder_self (numeric : Bool) (cell : Text) : cellOrder numeric cell cell = .eq := by
  cases numeric with
  | true => exact compare_eq_iff_eq.mpr rfl
  | false => exact Text.order_eq_eq_iff.mpr rfl

namespace Comparison

variable {cell value : Text}

theorem holds_lessThan : holds false ⟨.lessThan, value⟩ cell = true ↔ cell < value := by
  rw [← Text.order_eq_lt_iff]
  exact beq_iff_eq

theorem holds_greaterThan : holds false ⟨.greaterThan, value⟩ cell = true ↔ value < cell := by
  rw [← Text.order_eq_gt_iff]
  exact beq_iff_eq

theorem holds_greaterThanEquals :
    holds false ⟨.greaterThanEquals, value⟩ cell = true ↔ ¬ cell < value := by
  rw [← Text.order_eq_lt_iff]
  exact bne_iff_ne

theorem holds_equals : holds false ⟨.equals, value⟩ cell = true ↔ cell = value := by
  rw [← Text.order_eq_eq_iff]
  exact beq_iff_eq

theorem holds_notEquals : holds false ⟨.notEquals, value⟩ cell = true ↔ cell ≠ value := by
  rw [Ne, ← Text.order_eq_eq_iff]
  exact bne_iff_ne

end Comparison

namespace Constraint

variable {numeric : Bool} {column cell : Text}

@[simp]
theorem holds_single {op : Comparator} {value : Text} :
    (single column op value).holds numeric cell = Comparison.holds numeric ⟨op, value⟩ cell := by
  simp [holds, comparisons, single]

@[simp]
theorem holds_either {first second : Comparison} : (either column first second).holds numeric cell =
    (first.holds numeric cell || second.holds numeric cell) := by
  simp [holds, comparisons, either]

@[simp]
theorem allHold_nil : allHold numeric [] cell = true := rfl

@[simp]
theorem allHold_cons {c : Constraint} {cs : List Constraint} :
    allHold numeric (c :: cs) cell = (c.holds numeric cell && allHold numeric cs cell) := rfl

end Constraint

namespace Filter

variable {column : Column} {op : FilterOp} {i : Interval}

/-- Of the comparisons filters ask for, only equality admits equal values. -/
theorem admits_eq_iff : (comparator op).admits .eq = true ↔ op = .equals := by
  cases op <;> decide

/-- A comparison with the value itself holds for equality only. -/
theorem allHold_self_iff (numeric : Bool) (name value : Text) :
    Constraint.allHold numeric [.single name (comparator op) value] value = true ↔
      op = .equals := by
  rw [Constraint.allHold_cons, Constraint.holds_single, Constraint.allHold_nil, Bool.and_true,
    Comparison.holds, cellOrder_self]
  exact admits_eq_iff

/-- The start of a span is equal to the span, where single times are kept. -/
theorem allHold_start_iff (hType : column.type ≠ .dateRange)
    (hlt : i.start.stored < i.stop.stored) :
    Constraint.allHold false (ofInterval column op i) i.start.stored = true ↔ op = .equals := by
  have hStart : ¬ i.start.stored < i.start.stored := List.lt_irrefl _
  have hBefore : Comparison.holds false ⟨.lessThan, i.start.stored⟩ i.start.stored = false :=
    Bool.eq_false_iff.mpr (mt Comparison.holds_lessThan.mp hStart)
  have hFrom : Comparison.holds false ⟨.greaterThanEquals, i.start.stored⟩ i.start.stored = true :=
    Comparison.holds_greaterThanEquals.mpr hStart
  have hWithin : Comparison.holds false ⟨.lessThan, i.stop.stored⟩ i.start.stored = true :=
    Comparison.holds_lessThan.mpr hlt
  have hAfter : Comparison.holds false ⟨.greaterThanEquals, i.stop.stored⟩ i.start.stored = false :=
    Bool.eq_false_iff.mpr (mt Comparison.holds_greaterThanEquals.mp (not_not_intro hlt))
  cases op with
  | equals => simp [ofInterval, hType, hFrom, hWithin]
  | lessThan => simp [ofInterval, hBefore]
  | greaterThan => simp [ofInterval, hAfter]
  | notEquals => simp [ofInterval, hType, hBefore, hAfter]

/-- A span is equal to itself, where spans are kept. -/
theorem allHold_span_iff (hType : column.type = .dateRange) (hlt : i.stored < i.stop.stored) :
    Constraint.allHold false (ofInterval column op i) i.stored = true ↔ op = .equals := by
  -- The text of a span continues that of its start.
  have hBefore : Comparison.holds false ⟨.lessThan, i.start.stored⟩ i.stored = false :=
    Bool.eq_false_iff.mpr (mt Comparison.holds_lessThan.mp (Text.not_append_lt _ _))
  have hAfter : Comparison.holds false ⟨.greaterThanEquals, i.stop.stored⟩ i.stored = false :=
    Bool.eq_false_iff.mpr (mt Comparison.holds_greaterThanEquals.mp (not_not_intro hlt))
  have hEqual : Comparison.holds false ⟨.equals, i.stored⟩ i.stored = true :=
    Comparison.holds_equals.mpr rfl
  have hOther : Comparison.holds false ⟨.notEquals, i.stored⟩ i.stored = false :=
    Bool.eq_false_iff.mpr (mt Comparison.holds_notEquals.mp (not_not_intro rfl))
  cases op with
  | equals => simp [ofInterval, hType, hEqual]
  | lessThan => simp [ofInterval, hBefore]
  | greaterThan => simp [ofInterval, hAfter]
  | notEquals => simp [ofInterval, hType, hOther]

/-! ### Values and constraints of one text -/

variable {now : Instant} {input value : Text} {constraints : List Constraint}

/-- Columns of times keep an instant, but those of spans keep a span. -/
theorem stored?_of_isTemporal (h : column.type.isTemporal = true) :
    Value.stored? now column input =
      if column.type = .dateRange then (Interval.ofTyped? now input).map Interval.stored
      else Value.instant? now input := by
  unfold Value.stored?
  cases hType : column.type with
  | text => rw [hType] at h; cases h
  | number => rw [hType] at h; cases h
  | multipleChoice => rw [hType] at h; cases h
  | date => rfl
  | dateTime => rfl
  | time => rfl
  | dateRange => rfl

/-- A text that is a span is kept as its start, or as a span where spans are kept. -/
theorem value_of_interval (hTime : column.type.isTemporal = true)
    (hSpan : Interval.ofTyped? now input = some i)
    (hAdd : Value.normalize now column input = .ok value) :
    value = if column.type = .dateRange then i.stored else i.start.stored := by
  have hStored := Value.stored?_of_normalize hAdd
  -- An add tries the instant first, but the text of a span is none.
  rw [stored?_of_isTemporal hTime, Value.instant?, Instant.ofTyped?_eq_none hSpan, hSpan] at hStored
  split
  · rename_i hType
    rw [if_pos hType] at hStored
    exact (Option.some.inj hStored).symm
  · rename_i hType
    rw [if_neg hType] at hStored
    exact (Option.some.inj hStored).symm

/-- A text that is no span is kept as the instant it names, where spans are not kept. -/
theorem value_of_instant (hTime : column.type.isTemporal = true)
    (hSpan : Interval.ofTyped? now input = none)
    (hAdd : Value.normalize now column input = .ok value) :
    column.type ≠ .dateRange ∧ ∃ t, Instant.ofTyped? now input = some t ∧ value = t.stored := by
  have hStored := Value.stored?_of_normalize hAdd
  rw [stored?_of_isTemporal hTime, hSpan] at hStored
  split at hStored
  · cases hStored
  · rename_i hType
    unfold Value.instant? at hStored
    split at hStored
    · rename_i t hInstant
      exact ⟨hType, t, hInstant, (Option.some.inj hStored).symm⟩
    · rw [hSpan] at hStored
      cases hStored

theorem allHold_iff_equals_of_interval (hTime : column.type.isTemporal = true)
    (hSpan : Interval.ofTyped? now input = some i) (hlt : i.start < i.stop)
    (hStart : i.start.HasFourDigitYear) (hStop : i.stop.HasFourDigitYear)
    (hAdd : Value.normalize now column input = .ok value) :
    Constraint.allHold false (ofInterval column op i) value = true ↔ op = .equals := by
  have hWhole : i.stop.IsWhole := (Interval.isWhole_of_ofTyped? hSpan).2
  rw [value_of_interval hTime hSpan hAdd]
  split
  · rename_i hType
    exact allHold_span_iff hType (Instant.append_slash_lt_stored hWhole hStart hStop hlt)
  · rename_i hType
    exact allHold_start_iff hType ((Instant.stored_lt_stored_iff hWhole hStart hStop).mpr hlt)

/-- **What is added is what an equality filter finds.**  The value that a column keeps of a
text satisfies the constraints of the filter `=` with that text and of no other filter, if
a span that the text names ends after it starts, in years of four digits. -/
theorem allHold_iff_equals (hAdd : Value.normalize now column input = .ok value)
    (hFilter : Filter.constraints now column op input = .ok constraints)
    (hSpans : ∀ i, Interval.ofTyped? now input = some i →
      i.start < i.stop ∧ i.start.HasFourDigitYear ∧ i.stop.HasFourDigitYear) :
    Constraint.allHold (column.type = .number) constraints value = true ↔ op = .equals := by
  unfold Filter.constraints at hFilter
  by_cases hTime : column.type.isTemporal = true
  · have hNumber : decide (column.type = .number) = false := by
      rw [decide_eq_false_iff_not]
      intro hType
      rw [hType] at hTime
      cases hTime
    rw [if_pos hTime] at hFilter
    rw [hNumber]
    cases hSpan : Interval.ofTyped? now input with
    | some i =>
        obtain ⟨hlt, hStart, hStop⟩ := hSpans i hSpan
        rw [hSpan] at hFilter
        rw [← Except.ok.inj hFilter]
        exact allHold_iff_equals_of_interval hTime hSpan hlt hStart hStop hAdd
    | none =>
        obtain ⟨hType, t, hInstant, rfl⟩ := value_of_instant hTime hSpan hAdd
        -- The refusal of `=` with an instant is for columns that could not keep the value.
        have hNotEquality : ¬ (op = .equals ∧ column.type = .dateRange) := fun h => hType h.2
        rw [hSpan, hInstant] at hFilter
        dsimp only [ofInstant] at hFilter
        rw [if_neg hNotEquality] at hFilter
        rw [← Except.ok.inj hFilter]
        exact allHold_self_iff false column.storageName t.stored
  · -- Without times a filter compares with the very value that is added.
    rw [if_neg hTime, hAdd] at hFilter
    rw [← Except.ok.inj hFilter]
    exact allHold_self_iff _ column.storageName value

/-- A column that keeps spans. -/
def visits : Column :=
  { storageName := ['v'], displayName := ['V'], type := .dateRange }

/-- Half a minute, where the text of the start opens that of the end. -/
def visit : Text := "2024-06-01T10:00/2024-06-01T10:00:30".toList

/-- The span that `visit` names. -/
def visitSpan : Interval :=
  ⟨⟨⟨2024, 6, 1, by decide⟩, 36000, 0, by decide, by decide⟩,
    ⟨⟨2024, 6, 1, by decide⟩, 36030, 0, by decide, by decide⟩⟩

/-- A column that keeps moments. -/
def departures : Column :=
  { storageName := ['d'], displayName := ['D'], type := .dateTime }

/-- The moment when the visit ends, which is no span. -/
def departure : Text := "2024-06-01T10:00:30".toList

/-- A column that keeps numbers. -/
def fares : Column :=
  { storageName := ['f'], displayName := ['F'], type := .number }

/-- A number, which is no time. -/
def fare : Text := "7.50".toList

/-- The span runs forward in a year of four digits, and the other texts are no spans. -/
theorem forward_of_ofTyped? {t : Text} (ht : t ∈ [visit, departure, fare]) (i : Interval)
    (h : Interval.ofTyped? visitSpan.start t = some i) :
    i.start < i.stop ∧ i.start.HasFourDigitYear ∧ i.stop.HasFourDigitYear := by
  have hRead : Interval.ofTyped? visitSpan.start visit = some visitSpan ∧
      Interval.ofTyped? visitSpan.start departure = none ∧
      Interval.ofTyped? visitSpan.start fare = none ∧ visitSpan.start < visitSpan.stop := by
    decide +kernel
  obtain ⟨hVisit, hDeparture, hFare, hForward⟩ := hRead
  simp only [List.mem_cons, List.not_mem_nil, or_false] at ht
  rcases ht with rfl | rfl | rfl
  · obtain rfl := Option.some.inj (hVisit.symm.trans h)
    refine ⟨hForward, ?_, ?_⟩
    · unfold Instant.HasFourDigitYear
      decide
    · unfold Instant.HasFourDigitYear
      decide
  · cases hDeparture.symm.trans h
  · cases hFare.symm.trans h

/-- A span, a moment and a number are found by `=` and by no other filter. -/
theorem allHold_visit :
    Constraint.allHold (visits.type = .number) [.single ['v'] .equals visit] visit = true ∧
    ¬ Constraint.allHold (visits.type = .number)
      [.single ['v'] .greaterThanEquals departure] visit = true ∧
    Constraint.allHold (departures.type = .number)
      [.single ['d'] .equals departure] departure = true ∧
    ¬ Constraint.allHold (departures.type = .number)
      [.single ['d'] .lessThan departure] departure = true ∧
    Constraint.allHold (fares.type = .number)
      [.single ['f'] .equals fare] fare = true ∧
    ¬ Constraint.allHold (fares.type = .number) [.single ['f'] .notEquals fare] fare = true := by
  have hKept : Value.normalize visitSpan.start visits visit = .ok visit ∧
      Value.normalize visitSpan.start departures departure = .ok departure ∧
      Value.normalize visitSpan.start fares fare = .ok fare := by
    decide +kernel
  obtain ⟨hVisit, hDeparture, hFare⟩ := hKept
  have hAtVisit : Constraint.allHold (visits.type = .number)
      [.single ['v'] .equals visit] visit = true ↔ FilterOp.equals = .equals :=
    allHold_iff_equals hVisit (by decide +kernel) (forward_of_ofTyped? (by simp))
  have hAfterVisit : Constraint.allHold (visits.type = .number)
      [.single ['v'] .greaterThanEquals departure] visit = true ↔ FilterOp.greaterThan = .equals :=
    allHold_iff_equals hVisit (by decide +kernel) (forward_of_ofTyped? (by simp))
  have hAtDeparture : Constraint.allHold (departures.type = .number)
      [.single ['d'] .equals departure] departure = true ↔ FilterOp.equals = .equals :=
    allHold_iff_equals hDeparture (by decide +kernel) (forward_of_ofTyped? (by simp))
  have hBefore : Constraint.allHold (departures.type = .number)
      [.single ['d'] .lessThan departure] departure = true ↔ FilterOp.lessThan = .equals :=
    allHold_iff_equals hDeparture (by decide +kernel) (forward_of_ofTyped? (by simp))
  have hAtFare : Constraint.allHold (fares.type = .number)
      [.single ['f'] .equals fare] fare = true ↔ FilterOp.equals = .equals :=
    allHold_iff_equals hFare (by decide +kernel) (forward_of_ofTyped? (by simp))
  have hOtherFare : Constraint.allHold (fares.type = .number)
      [.single ['f'] .notEquals fare] fare = true ↔ FilterOp.notEquals = .equals :=
    allHold_iff_equals hFare (by decide +kernel) (forward_of_ofTyped? (by simp))
  exact ⟨hAtVisit.mpr rfl, mt hAfterVisit.mp (by decide), hAtDeparture.mpr rfl,
    mt hBefore.mp (by decide), hAtFare.mpr rfl, mt hOtherFare.mp (by decide)⟩

end Filter

end TableTalk
