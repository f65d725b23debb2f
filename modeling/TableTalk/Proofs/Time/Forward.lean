import TableTalk.Proofs.Time.Canonical
import TableTalk.Value

/-!
# Spans that run forward

A typed span is named in one of four forms.  A minute, an hour and a day are given by their
start and end a fixed time later, so they run forward wherever they lie: moving an instant by
some seconds moves its rank by as many (`Instant.lt_of_advance`), across the ends of days,
months and years, because the date of a day number has that number
(`Date.dayNumber_of_ofDayNumber?`).

The fourth form, a pair of stored instants, is taken as it is written.  Its end is not
compared with its start, so that a pair written backwards is a span that ends before it
starts, and is stored as one.  `Interval.forward_unless_backward_pair` says that there are no
other such spans.
-/

namespace TableTalk

/-! ### Days by their number -/

theorem daysBeforeYear_yearOfDay_le (n : Int) : daysBeforeYear (yearOfDay n) ≤ n := by
  unfold yearOfDay
  dsimp only
  split
  · assumption
  · split
    · assumption
    · unfold daysBeforeYear
      omega

theorem daysBeforeMonth_mono (leap : Bool) : Monotone (daysBeforeMonth leap) := by
  refine monotone_nat_of_le_succ fun month => ?_
  rcases month with _ | month
  · exact Nat.le_refl 0
  · exact Nat.le_add_right _ _

/-- Of successive numbers, those with a value of at most `k` under a monotone function come
first, so that their count leads to the last of them. -/
theorem le_of_length_filter {f : Nat → Nat} (hf : Monotone f) (k first count : Nat) :
    let counted := ((List.range' first count).filter fun m => f m ≤ k).length
    counted = 0 ∨ f (first + counted - 1) ≤ k := by
  induction count generalizing first with
  | zero => exact Or.inl rfl
  | succ count ih =>
      have hRest := ih (first + 1)
      dsimp only at hRest ⊢
      rw [List.range'_succ, List.filter_cons]
      by_cases hFirst : f first ≤ k
      · rw [if_pos (decide_eq_true hFirst), List.length_cons, Nat.add_sub_assoc (by omega),
          Nat.add_sub_cancel]
        rcases hRest with hNone | hLast
        · rw [hNone]
          exact Or.inr hFirst
        · exact Or.inr (by rwa [Nat.add_right_comm, Nat.add_sub_cancel] at hLast)
      · rw [if_neg (by simpa using hFirst)]
        -- Nothing later is counted either, as the values there are no smaller.
        exact hRest.imp_right fun hLast => absurd ((hf (by omega)).trans hLast) hFirst

theorem daysBeforeMonth_monthAndDay_le (leap : Bool) (k : Nat) :
    daysBeforeMonth leap (monthAndDay leap k).1 ≤ k := by
  unfold monthAndDay
  dsimp only
  rcases le_of_length_filter (daysBeforeMonth_mono leap) k 2 11 with hNone | hLast
  · rw [hNone]
    exact Nat.zero_le k
  · rwa [Nat.add_comm, Nat.add_sub_assoc (by decide)] at hLast

namespace Date

/-- The date of a day number has that number. -/
theorem dayNumber_of_ofDayNumber? {n : Int} {d : Date} (h : ofDayNumber? n = some d) :
    d.dayNumber = n := by
  obtain ⟨hYear, hMonth, hDay⟩ := ofParts?_eq_some_iff.mp h
  have hFirst := daysBeforeYear_yearOfDay_le n
  have hWithin := daysBeforeMonth_monthAndDay_le (isLeapYear (yearOfDay n))
    (n - daysBeforeYear (yearOfDay n)).toNat
  unfold dayNumber
  rw [hYear, hMonth, hDay]
  unfold monthAndDay at hWithin ⊢
  dsimp only at hWithin ⊢
  omega

theorem dayNumber_of_shift {d d' : Date} {days : Int} (h : d.shift days = some d') :
    d'.dayNumber = d.dayNumber + days :=
  dayNumber_of_ofDayNumber? h

end Date

/-! ### Moving forward -/

/-- Moving an instant by a positive number of seconds gives a later one. -/
theorem Instant.lt_of_advance {t t' : Instant} {seconds : Int} (hSeconds : 0 < seconds)
    (h : t.advance seconds = some t') : t < t' := by
  have hForward : ¬ seconds < 0 := by omega
  simp only [advance, hSeconds.ne', hForward, if_false, decide_false, Bool.and_false,
    Bool.false_eq_true, Int.add_zero] at h
  obtain ⟨d, hShift, rfl⟩ := Option.map_eq_some_iff.mp h
  have hDays := Date.dayNumber_of_shift hShift
  have hNanos := t.nanos_lt_two_seconds
  rw [← rank_lt_rank, rank_lt_iff]
  dsimp only
  simp only [secondsPerDay, nanosPerSecond] at *
  omega

namespace Interval

variable {now : Instant} {t : Text} {i : Interval}

/-- A span of a positive length ends after its start. -/
theorem lt_of_startingAt {start : Instant} {seconds : Int} (hSeconds : 0 < seconds)
    (h : startingAt start seconds = some i) : i.start < i.stop := by
  obtain ⟨stop, hStop, rfl⟩ := Option.map_eq_some_iff.mp h
  exact Instant.lt_of_advance hSeconds hStop

/-! ### Pairs -/

/-- The text is a pair of stored instants of which the second is not after the first. -/
def IsBackwardPair (t : Text) : Prop :=
  ∃ pair ∈ ofStored? t, ¬ pair.start < pair.stop

instance (t : Text) : Decidable (IsBackwardPair t) :=
  inferInstanceAs (Decidable (∃ pair ∈ ofStored? t, ¬ pair.start < pair.stop))

/-- A typed span that is not a stored pair runs forward. -/
theorem lt_of_ofTyped? (h : ofTyped? now t = some i) (hStored : ofStored? t ≠ some i) :
    i.start < i.stop := by
  rcases cases_of_ofTyped? h with hPair | ⟨start, -, hMinute⟩ | ⟨start, -, hHour⟩ | ⟨day, -, hDay⟩
  · exact absurd ((ofStored?_trim t).symm.trans hPair) hStored
  · exact lt_of_startingAt (by decide) hMinute
  · exact lt_of_startingAt (by decide) hHour
  · exact lt_of_startingAt (by decide) hDay

/-- A typed span runs forward unless its text is a pair that does not. -/
theorem lt_iff_of_ofTyped? (h : ofTyped? now t = some i) :
    i.start < i.stop ↔ ¬ IsBackwardPair t := by
  constructor
  · rintro hForward ⟨pair, hPair, hBackward⟩
    have hTyped : ofTyped? now t = some pair := ofTyped?_of_ofStored? hPair now
    obtain rfl : i = pair := Option.some.inj (h.symm.trans hTyped)
    exact hBackward hForward
  · intro hPair
    by_contra hBackward
    have hStored : ofStored? t = some i := by
      by_contra hNot
      exact hBackward (lt_of_ofTyped? h hNot)
    exact hPair ⟨i, hStored, hBackward⟩

/-- The texts read as a span that does not run forward are the pairs written so, at every
reference instant. -/
theorem exists_not_lt_iff (now : Instant) (t : Text) :
    (∃ i, ofTyped? now t = some i ∧ ¬ i.start < i.stop) ↔ IsBackwardPair t := by
  constructor
  · rintro ⟨i, hTyped, hBackward⟩
    exact not_not.mp (mt (lt_iff_of_ofTyped? hTyped).mpr hBackward)
  · rintro ⟨pair, hPair, hBackward⟩
    exact ⟨pair, ofTyped?_of_ofStored? hPair now, hBackward⟩

/-- A value kept on a column of spans occupies the span that was typed. -/
theorem exists_of_normalize {column : Column} {value : Text} (hType : column.type = .dateRange)
    (h : Value.normalize now column t = .ok value) :
    ∃ i, ofTyped? now t = some i ∧ Occupied.ofStored value = .ok (.between i.start i.stop) := by
  have hStored := Value.stored?_of_normalize h
  unfold Value.stored? at hStored
  rw [hType] at hStored
  obtain ⟨i, hTyped, rfl⟩ := Option.map_eq_some_iff.mp hStored
  exact ⟨i, hTyped, Occupied.ofStored_of_ofTyped? hTyped⟩

/-- **Spans run forward, pairs apart.**  At every reference instant a text is read as a span
that does not end after its start exactly if it is a pair written that way; and a value kept
on a column of spans occupies a span that ends after its start exactly if the text typed is
no such pair. -/
theorem forward_unless_backward_pair (now : Instant) (t : Text) :
    ((∃ i, ofTyped? now t = some i ∧ ¬ i.start < i.stop) ↔ IsBackwardPair t) ∧
    ∀ (column : Column) (value : Text), column.type = .dateRange →
      Value.normalize now column t = .ok value →
      ∃ i : Interval, Occupied.ofStored value = .ok (.between i.start i.stop) ∧
        (i.start < i.stop ↔ ¬ IsBackwardPair t) := by
  refine ⟨exists_not_lt_iff now t, fun column value hType hKept => ?_⟩
  obtain ⟨i, hTyped, hOccupied⟩ := exists_of_normalize hType hKept
  exact ⟨i, hOccupied, lt_iff_of_ofTyped? hTyped⟩

/-- The sixth of May. -/
def sixthOfMay : Date :=
  ⟨2025, 5, 6, by decide⟩

/-- A column of stays. -/
def stays : Column :=
  { storageName := "s".toList, displayName := "Stay".toList, type := .dateRange }

/-- The last hour of a year ends in the next one. -/
theorem forward_unless_backward_pair_midnight :
    Value.normalize (.midnight sixthOfMay) stays "12/31 11pm".toList =
      .ok "2025-12-31T23:00/2026-01-01T00:00".toList ∧
    ∃ i : Interval, Occupied.ofStored "2025-12-31T23:00/2026-01-01T00:00".toList =
        .ok (.between i.start i.stop) ∧ i.start < i.stop := by
  have hKept : Value.normalize (.midnight sixthOfMay) stays "12/31 11pm".toList =
      .ok "2025-12-31T23:00/2026-01-01T00:00".toList := by decide +kernel
  have hNoPair : ¬ IsBackwardPair "12/31 11pm".toList := by decide +kernel
  obtain ⟨i, hOccupied, hForward⟩ :=
    (forward_unless_backward_pair (.midnight sixthOfMay) _).2 stays _ rfl hKept
  exact ⟨hKept, i, hOccupied, hForward.mpr hNoPair⟩

/-- Not every span that is read runs forward: two days can be written from the later to the
earlier. -/
theorem not_always_forward :
    ¬ ∀ (now : Instant) (t : Text) (i : Interval), ofTyped? now t = some i → i.start < i.stop := by
  intro hAlways
  have hPair : IsBackwardPair "2025-05-02/2025-05-01".toList := by decide +kernel
  obtain ⟨i, hTyped, hBackward⟩ := (exists_not_lt_iff (.midnight sixthOfMay) _).mpr hPair
  exact hBackward (hAlways _ _ i hTyped)

end Interval

end TableTalk
