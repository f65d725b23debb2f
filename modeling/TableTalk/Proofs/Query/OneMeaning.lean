import TableTalk.Proofs.Query.TimeFilters

/-!
# One meaning for every typed time

A text can be tried as an instant first and as a span after that, or the other way round.
Values of a column are read in the one order and filters in the other.  Since no text is both
(`Instant.ofTyped?_eq_none`), the two orders read every text alike, and what is kept of a value
and what a filter compares with are made from one reading of it (`Typed.one_meaning`).
-/

namespace TableTalk

namespace Typed

/-- The instant or span that a text names, tried as an instant first. -/
def instantFirst? (now : Instant) (t : Text) : Option (Instant ⊕ Interval) :=
  ((Instant.ofTyped? now t).map Sum.inl).orElse fun _ => (Interval.ofTyped? now t).map Sum.inr

/-- The instant or span that a text names, tried as a span first. -/
def spanFirst? (now : Instant) (t : Text) : Option (Instant ⊕ Interval) :=
  ((Interval.ofTyped? now t).map Sum.inr).orElse fun _ => (Instant.ofTyped? now t).map Sum.inl

theorem eq_none_or_eq_none (now : Instant) (t : Text) :
    Instant.ofTyped? now t = none ∨ Interval.ofTyped? now t = none := by
  cases hSpan : Interval.ofTyped? now t with
  | none => exact Or.inr rfl
  | some i => exact Or.inl (Instant.ofTyped?_eq_none hSpan)

/-- The order in which a text is tried makes no difference. -/
theorem instantFirst?_eq_spanFirst? (now : Instant) (t : Text) :
    instantFirst? now t = spanFirst? now t := by
  unfold instantFirst? spanFirst?
  rcases eq_none_or_eq_none now t with hInstant | hSpan
  · rw [hInstant]
    cases Interval.ofTyped? now t <;> rfl
  · rw [hSpan]
    cases Instant.ofTyped? now t <;> rfl

/-- A value is kept as the instant it names, or as the start of the span. -/
theorem instant?_eq (now : Instant) (t : Text) :
    Value.instant? now t =
      (instantFirst? now t).map (Sum.elim Instant.stored fun i => i.start.stored) := by
  unfold Value.instant? instantFirst?
  cases Instant.ofTyped? now t with
  | some x => rfl
  | none => cases Interval.ofTyped? now t <;> rfl

/-- A filter on times compares with the ends of the span it names, or with the instant. -/
theorem constraints_eq (now : Instant) {column : Column} (op : FilterOp) (t : Text)
    (hTime : column.type.isTemporal = true) :
    Filter.constraints now column op t =
      ((spanFirst? now t).map (Sum.elim (Filter.ofInstant column op)
        fun i => .ok (Filter.ofInterval column op i))).getD
          (.error (.invalidValue column.displayName t)) := by
  unfold Filter.constraints spanFirst?
  rw [if_pos hTime]
  cases Interval.ofTyped? now t with
  | some i => rfl
  | none => cases Instant.ofTyped? now t <;> rfl

/-- **A typed time has one meaning.**  At every reference instant no text is both an instant
and a span, so that it is read as the same whichever it is tried as first; and of that one
reading are made both the value kept on a column and the constraints of a filter on times. -/
theorem one_meaning (now : Instant) (t : Text) :
    (Instant.ofTyped? now t = none ∨ Interval.ofTyped? now t = none) ∧
    instantFirst? now t = spanFirst? now t ∧
    Value.instant? now t =
      (instantFirst? now t).map (Sum.elim Instant.stored fun i => i.start.stored) ∧
    ∀ (column : Column) (op : FilterOp), column.type.isTemporal = true →
      Filter.constraints now column op t =
        ((instantFirst? now t).map (Sum.elim (Filter.ofInstant column op)
          fun i => .ok (Filter.ofInterval column op i))).getD
            (.error (.invalidValue column.displayName t)) := by
  refine ⟨eq_none_or_eq_none now t, instantFirst?_eq_spanFirst? now t, instant?_eq now t, ?_⟩
  intro column op hTime
  rw [instantFirst?_eq_spanFirst?]
  exact constraints_eq now op t hTime

/-- A column of arrivals. -/
def arrivals : Column :=
  { storageName := ['a'], displayName := ['A'], type := .dateTime }

/-- The fifth of May. -/
def fifthOfMay : Instant :=
  .midnight ⟨2025, 5, 5, by decide⟩

/-- An hour of the next day, without its year, is a span. -/
theorem one_meaning_hour :
    arrivals.type.isTemporal = true ∧
      Filter.constraints fifthOfMay arrivals .lessThan "5/6 10am".toList =
        .ok [.single ['a'] .lessThan "2025-05-06T10:00".toList] := by
  refine ⟨rfl, ((one_meaning fifthOfMay _).2.2.2 arrivals .lessThan rfl).trans ?_⟩
  decide +kernel

end Typed

end TableTalk
