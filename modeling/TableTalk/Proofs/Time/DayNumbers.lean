import TableTalk.Proofs.Time.Forward

/-!
# Days without gaps

The day numbers of the representable years are an unbroken range of integers.  A date is
found again from its day number (`Date.ofDayNumber?_dayNumber`), and a day number is refused
exactly if it is outside the range (`Date.ofDayNumber?_eq_none_iff`).

Moving an instant therefore fails for one reason only.  `Instant.advance_eq_none_iff` says so
of moves forward: they fail exactly if they reach the end of the last year.
-/

namespace TableTalk

/-! ### The year and the month of a day -/

theorem lt_daysBeforeYear_yearOfDay (n : Int) : n < daysBeforeYear (yearOfDay n + 1) := by
  unfold yearOfDay
  dsimp only
  split
  · unfold daysBeforeYear
    omega
  · split
    · omega
    · rw [Int.sub_add_cancel]
      omega

/-- A year begins by a day exactly if the day falls in that year or later. -/
theorem le_yearOfDay_iff {year n : Int} : year ≤ yearOfDay n ↔ daysBeforeYear year ≤ n := by
  constructor
  · intro h
    exact (daysBeforeYear_strictMono.monotone h).trans (daysBeforeYear_yearOfDay_le n)
  · intro h
    have hNext := h.trans_lt (lt_daysBeforeYear_yearOfDay n)
    rw [daysBeforeYear_strictMono.lt_iff_lt] at hNext
    exact Int.le_of_lt_add_one hNext

/-- Of successive numbers, those with a value of at most `k` under a monotone function come
first, so that the one after them has a greater value. -/
theorem lt_of_length_filter {f : Nat → Nat} (hf : Monotone f) (k first count : Nat) :
    let counted := ((List.range' first count).filter fun m => f m ≤ k).length
    counted = count ∨ k < f (first + counted) := by
  induction count generalizing first with
  | zero => exact Or.inl rfl
  | succ count ih =>
      have hRest := ih (first + 1)
      dsimp only at hRest ⊢
      rw [List.range'_succ, List.filter_cons]
      by_cases hFirst : f first ≤ k
      · rw [if_pos (decide_eq_true hFirst), List.length_cons]
        refine hRest.imp (congrArg (· + 1)) fun hNext => ?_
        rwa [Nat.add_assoc, Nat.add_comm 1] at hNext
      · rw [if_neg (by simpa using hFirst)]
        exact Or.inr ((not_le.mp hFirst).trans_le (hf (Nat.le_add_right _ _)))

/-- The month of a day of a year ends after that day. -/
theorem lt_daysBeforeMonth_monthAndDay {leap : Bool} {k : Nat} (hk : k < yearLength leap) :
    k < daysBeforeMonth leap ((monthAndDay leap k).1 + 1) := by
  have hCount := lt_of_length_filter (daysBeforeMonth_mono leap) k 2 11
  unfold monthAndDay
  dsimp only at hCount ⊢
  rcases hCount with hAll | hNext
  · rwa [hAll, daysBeforeMonth_thirteen]
  · rwa [Nat.add_comm] at hNext

theorem monthAndDay_month_le (leap : Bool) (k : Nat) : (monthAndDay leap k).1 ≤ 12 := by
  have hCount : ((List.range' 2 11).filter fun m => daysBeforeMonth leap m ≤ k).length ≤ 11 :=
    List.length_filter_le _ _
  exact Nat.succ_le_succ hCount

/-- A day of a year is a day of its month. -/
theorem monthAndDay_day_le {leap : Bool} {k : Nat} (hk : k < yearLength leap) :
    (monthAndDay leap k).2 ≤ monthLength leap (monthAndDay leap k).1 := by
  have hNext := lt_daysBeforeMonth_monthAndDay hk
  have hMonth : 1 ≤ (monthAndDay leap k).1 := Nat.le_add_left 1 _
  rw [daysBeforeMonth_succ hMonth] at hNext
  have hDay : (monthAndDay leap k).2 = k - daysBeforeMonth leap (monthAndDay leap k).1 + 1 := rfl
  have hWithin := daysBeforeMonth_monthAndDay_le leap k
  omega

namespace Date

variable {n : Int}

/-- The parts of a day number are a day of the calendar, if their year is representable. -/
theorem isDay_iff :
    (let parts := monthAndDay (isLeapYear (yearOfDay n)) (n - daysBeforeYear (yearOfDay n)).toNat
    IsDay (yearOfDay n) parts.1 parts.2) ↔ minYear ≤ yearOfDay n ∧ yearOfDay n ≤ maxYear := by
  refine ⟨fun h => ⟨h.1, h.2.1⟩, fun ⟨hFirst, hLast⟩ => ?_⟩
  have hStart := daysBeforeYear_yearOfDay_le n
  have hStop := lt_daysBeforeYear_yearOfDay n
  rw [daysBeforeYear_succ] at hStop
  exact ⟨hFirst, hLast, Nat.le_add_left 1 _, monthAndDay_month_le _ _, Nat.le_add_left 1 _,
    monthAndDay_day_le (by omega)⟩

/-- The day numbers of dates are those of the representable years. -/
theorem ofDayNumber?_eq_none_iff :
    ofDayNumber? n = none ↔ n < daysBeforeYear minYear ∨ daysBeforeYear (maxYear + 1) ≤ n := by
  have hDay : ofDayNumber? n = none ↔ ¬ (minYear ≤ yearOfDay n ∧ yearOfDay n ≤ maxYear) := by
    rw [← isDay_iff, ofDayNumber?, ofParts?, dite_eq_right_iff]
    exact ⟨fun h hDay => Option.some_ne_none _ (h hDay), fun h hDay => absurd hDay h⟩
  have hLast : ¬ yearOfDay n ≤ maxYear ↔ daysBeforeYear (maxYear + 1) ≤ n := by
    rw [not_le, ← Int.add_one_le_iff, le_yearOfDay_iff]
  rw [hDay, not_and_or, le_yearOfDay_iff, not_le, hLast]

theorem daysBeforeYear_minYear_le (d : Date) : daysBeforeYear minYear ≤ d.dayNumber := by
  have hYear := daysBeforeYear_strictMono.monotone d.isDay.1
  rw [dayNumber_eq]
  omega

theorem dayNumber_lt_daysBeforeYear (d : Date) : d.dayNumber < daysBeforeYear (maxYear + 1) := by
  have hYear := daysBeforeYear_strictMono.monotone (Int.add_le_add_right d.isDay.2.1 1)
  have hDay := d.dayOfYear_lt_yearLength
  rw [daysBeforeYear_succ] at hYear
  rw [dayNumber_eq]
  omega

/-- A date is found again from its day number. -/
theorem ofDayNumber?_dayNumber (d : Date) : ofDayNumber? d.dayNumber = some d := by
  cases hFound : ofDayNumber? d.dayNumber with
  | none =>
      have hFirst := d.daysBeforeYear_minYear_le
      have hLast := d.dayNumber_lt_daysBeforeYear
      rw [ofDayNumber?_eq_none_iff] at hFound
      omega
  | some d' => rw [dayNumber_injective (dayNumber_of_ofDayNumber? hFound)]

/-- A day is moved to unless it is outside the representable years. -/
theorem shift_eq_none_iff {d : Date} {days : Int} : d.shift days = none ↔
    d.dayNumber + days < daysBeforeYear minYear ∨
      daysBeforeYear (maxYear + 1) ≤ d.dayNumber + days :=
  ofDayNumber?_eq_none_iff

end Date

/-- A move forward fails exactly if it reaches the end of the last representable year. -/
theorem Instant.advance_eq_none_iff {t : Instant} {seconds : Int} (hSeconds : 0 < seconds) :
    t.advance seconds = none ↔
      daysBeforeYear (maxYear + 1) * secondsPerDay ≤
        t.date.dayNumber * secondsPerDay + t.second + seconds := by
  -- The day after the move is not before the first one, and only the last one bounds it.
  have hForward : ¬ seconds < 0 := by omega
  have hFirst := t.date.daysBeforeYear_minYear_le
  simp only [advance, hSeconds.ne', hForward, if_false, decide_false, Bool.and_false,
    Bool.false_eq_true, Int.add_zero, Option.map_eq_none_iff, Date.shift_eq_none_iff]
  simp only [secondsPerDay]
  omega

end TableTalk
