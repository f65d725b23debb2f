import TableTalk.Proofs.Message.StoredForm
import TableTalk.Proofs.Time.DayNumbers

/-!
# Kept values are kept again

What a column keeps of a value is itself a value of the column, and is kept as it is, whatever
the reference instants of the two readings are (`Value.normalize_of_normalized`).

* A number is kept trimmed, and a choice as its option is spelled.  The options before that one
  are no more like the option than like what was typed, since blanks and the case of letters
  make no difference.
* A span is kept in stored form, the first form that typed spans are tried as.
* An instant is kept in a text that is typed as an instant if it shows a second, and as the
  minute it names otherwise (`Instant.ofTyped?_stored`, `Interval.ofTyped?_stored`).

A minute is read as a span, which has an end.  The last minute of the last year has none that
can be represented, so that its text is the one value which is kept but not kept again.
-/

namespace TableTalk

/-! ### Blanks and the case of letters -/

namespace Text

/-- No letter is a blank in either case. -/
theorem isBlank_toLower (c : Char) : isBlank c.toLower = isBlank c := by
  rcases toLower_cases c with hSame | ⟨hLow, hHigh, hShift⟩
  · rw [hSame]
  · unfold isBlank
    rw [Bool.eq_iff_iff]
    simp only [Bool.or_eq_true, Bool.and_eq_true, decide_eq_true_eq, beq_iff_eq]
    omega

theorem trim_lower (t : Text) : trim (lower t) = lower (trim t) := by
  have hBlank : isBlank ∘ Char.toLower = isBlank := funext isBlank_toLower
  unfold trim trimEnd skipBlanks lower
  rw [List.dropWhile_map, hBlank, ← List.map_reverse, List.dropWhile_map, hBlank,
    ← List.map_reverse]

end Text

/-! ### Texts of instants, typed -/

namespace Instant

variable (t : Instant)

/-- A minute is written in the first style of minutes. -/
theorem read_stored_minutes (h : t.shownSecond = 0) :
    InstantStyle.read ⟨.iso, .letter, .minutes⟩ t.stored = some t.wholeSecond := by
  have hClock := t.ofClock?_shown
  rw [h] at hClock
  unfold stored
  simp [h, InstantStyle.read_stored, ClockStyle.read_minutes t.fields_lt.2.2.1 t.fields_lt.2.2.2,
    hClock]

/-- Any other second is written in the first style of seconds. -/
theorem read_stored_seconds (h : t.shownSecond ≠ 0) :
    InstantStyle.read ⟨.iso, .letter, .seconds⟩ t.stored = some t.wholeSecond := by
  unfold stored
  simp [h, InstantStyle.read_stored, ClockStyle.read_seconds t.fields_lt.2.2.1 t.fields_lt.2.2.2
    t.shownSecond_lt, t.ofClock?_shown]

/-- The text of an instant is typed as an instant exactly if it shows a second. -/
theorem ofTyped?_stored (now : Instant) :
    ofTyped? now t.stored = if t.shownSecond = 0 then none else some t.wholeSecond := by
  split
  · rename_i hMinute
    have hRead := t.read_stored_minutes hMinute
    -- One colon is too few for a second, and there is no letter of `now`.
    have hColons : t.stored.countP (· == ':') = 1 := plainMark_colon.countP_instant hRead
    have hLetters : t.stored.countP isLetterN = 0 := plainMark_letterN.countP_instant hRead
    rw [Option.eq_none_iff_forall_ne_some]
    intro i hTyped
    have hMarks := marks_of_ofTyped? hTyped
    omega
  · rename_i hSecond
    dsimp only [ofTyped?]
    rw [trim_stored, Typed.orWithYear, ofStyles?, Typed.secondStyles, List.findSome?_cons,
      t.read_stored_seconds hSecond]
    rfl

end Instant

/-- The text of an instant without a second is typed as the minute that begins there. -/
theorem Interval.ofTyped?_stored {t : Instant} (h : t.shownSecond = 0) (now : Instant) :
    ofTyped? now t.stored = startingAt t.wholeSecond 60 := by
  -- A text without a slash is no pair, and the forms of minutes are tried next.
  have hPair : ofStored? t.stored = none := by
    rw [Option.eq_none_iff_forall_ne_some]
    intro i hStored
    obtain ⟨before, after, hText, -⟩ := exists_of_ofStored? hStored
    exact t.slash_not_mem_stored (hText ▸ List.mem_append_right _ List.mem_cons_self)
  dsimp only [ofTyped?]
  rw [t.trim_stored, hPair, Typed.orWithYear, Instant.ofStyles?, Typed.minuteStyles,
    List.findSome?_cons, t.read_stored_minutes h]
  rfl

/-! ### The last minute -/

namespace Instant

theorem isDay_last : IsDay maxYear 12 31 := by
  decide

/-- The start of the last representable minute. -/
def lastMinute : Instant :=
  ⟨⟨maxYear, 12, 31, isDay_last⟩, 86340, 0, by decide, by decide⟩

theorem stored_lastMinute : lastMinute.stored = "+262142-12-31T23:59".toList := by
  decide +kernel

/-- The last minute is the only one whose end cannot be represented. -/
theorem advance_minute_eq_none_iff {t : Instant} (h : t.shownSecond = 0) :
    t.wholeSecond.advance 60 = none ↔ t.wholeSecond = lastMinute := by
  have hLast : lastMinute.date.dayNumber = daysBeforeYear (maxYear + 1) - 1 := by decide
  have hDay := t.date.dayNumber_lt_daysBeforeYear
  have hSecond := t.second_lt
  unfold shownSecond at h
  rw [advance_eq_none_iff (by decide), ← rank_injective.eq_iff]
  unfold rank
  rw [hLast]
  simp only [wholeSecond, lastMinute, secondsPerDay, nanosPerSecond] at *
  omega

end Instant

/-! ### Values of a column -/

namespace Value

variable {column : Column} {input value : Text} {now : Instant}

/-- The text of an instant is kept again, if it is not that of the last minute. -/
theorem instant?_stored_of_ne (now : Instant) {t : Instant}
    (h : t.stored ≠ Instant.lastMinute.stored) : instant? now t.stored = some t.stored := by
  rw [instant?, t.ofTyped?_stored]
  by_cases hMinute : t.shownSecond = 0
  · rw [if_pos hMinute, Interval.ofTyped?_stored hMinute, Interval.startingAt]
    cases hStop : t.wholeSecond.advance 60 with
    | none =>
        have hLast := (Instant.advance_minute_eq_none_iff hMinute).mp hStop
        refine absurd ?_ h
        rw [← t.stored_wholeSecond, hLast]
    | some stop => simp [Instant.stored_wholeSecond]
  · rw [if_neg hMinute]
    simp [Instant.stored_wholeSecond]

/-- No column of times keeps the text of the last minute. -/
theorem instant?_lastMinute (now : Instant) : instant? now Instant.lastMinute.stored = none := by
  have hMinute : Instant.lastMinute.shownSecond = 0 := rfl
  have hWhole := Instant.wholeSecond_of_isWhole (t := .lastMinute) (Or.inl rfl)
  have hStop := (Instant.advance_minute_eq_none_iff hMinute).mpr hWhole
  rw [instant?, Instant.ofTyped?_stored, if_pos hMinute, Interval.ofTyped?_stored hMinute,
    Interval.startingAt, hStop]
  rfl

/-- A span that is kept is kept again. -/
theorem span_of_keeps (h : column.Keeps value) (hType : column.type = .dateRange)
    (now : Instant) : (Interval.ofTyped? now value).map Interval.stored = some value := by
  unfold Column.Keeps at h
  rw [hType] at h
  obtain ⟨start, stop, hOccupied, rfl⟩ := h
  unfold Occupied.ofStored at hOccupied
  split at hOccupied
  · rename_i i hStored
    obtain ⟨rfl, rfl⟩ : i.start = start ∧ i.stop = stop := by
      simpa [Occupied.between] using hOccupied
    rw [Interval.ofTyped?_of_ofStored? hStored]
    rfl
  · cases hOccupied

/-- A number that is kept is kept again. -/
theorem number?_of_number? (h : number? input = some value) : number? value = some value := by
  obtain ⟨hTrim, d, hRead, hFinite⟩ := keeps_of_number? h
  unfold number?
  simp [hTrim, hRead, hFinite]

/-- An option that is chosen is the first one spelled like itself. -/
theorem choice?_of_choice? {options : List Text} (h : choice? options input = some value) :
    choice? options value = some value := by
  have hLike : Text.lower value = Text.lower (Text.trim input) := by
    simpa [Text.sameLetters] using List.find?_some h
  have hTrimmed : Text.lower (Text.trim value) = Text.lower (Text.trim input) := by
    rw [← Text.trim_lower, hLike, Text.trim_lower, Text.trim_trim]
  unfold choice? Text.sameLetters at h ⊢
  rw [hTrimmed]
  exact h

/-- The value is that of the last minute, on a column of single times. -/
structure IsLastMinute (column : Column) (value : Text) : Prop where
  type : column.type = .date ∨ column.type = .dateTime ∨ column.type = .time
  text : value = "+262142-12-31T23:59".toList

/-- What is kept of a value is stored again, but for the last minute. -/
theorem stored?_of_normalized (h : normalize now column input = .ok value)
    (hOther : ¬ IsLastMinute column value) (later : Instant) :
    stored? later column value = some value := by
  have hStored := stored?_of_normalize h
  have hKeeps := Column.keeps_of_normalize h
  unfold stored? at hStored ⊢
  cases hType : column.type with
  | text => rfl
  | number =>
      rw [hType] at hStored
      exact number?_of_number? hStored
  | date | dateTime | time =>
      rw [hType] at hStored
      obtain ⟨t, -, rfl⟩ := keeps_of_instant? hStored
      refine instant?_stored_of_ne later fun hLast => hOther ⟨by simp [hType], ?_⟩
      exact hLast.trans Instant.stored_lastMinute
  | dateRange => exact span_of_keeps hKeeps hType later
  | multipleChoice =>
      rw [hType] at hStored
      exact choice?_of_choice? hStored

theorem stored?_lastMinute (h : IsLastMinute column value) (later : Instant) :
    stored? later column value = none := by
  obtain ⟨hType, hText⟩ := h
  rw [← Instant.stored_lastMinute] at hText
  unfold stored?
  rw [hText]
  rcases hType with hType | hType | hType
  · rw [hType]
    exact instant?_lastMinute later
  · rw [hType]
    exact instant?_lastMinute later
  · rw [hType]
    exact instant?_lastMinute later

/-- **Kept values are kept again.**  What a column keeps of a value at one reference instant,
it keeps unchanged at every other, with one exception: on a column of dates, times or both
the last representable minute is kept when it is typed with its second, but what is kept shows
no second, names a minute without an end and is refused. -/
theorem normalize_of_normalized (h : normalize now column input = .ok value)
    (later : Instant) :
    (¬ IsLastMinute column value → normalize later column value = .ok value) ∧
    (IsLastMinute column value →
      normalize later column value = .error (.invalidValue column.displayName value)) := by
  unfold normalize
  constructor
  · intro hOther
    rw [stored?_of_normalized h hOther]
  · intro hLast
    rw [stored?_lastMinute hLast]

/-- A column of times. -/
def calls : Column :=
  { storageName := "c".toList, displayName := "Call".toList, type := .time }

/-- Five minutes past noon on a day in June, and half a second. -/
def shortlyPastNoon : Instant :=
  ⟨⟨2025, 6, 2, by decide⟩, 43500, 500000000, by decide, by decide⟩

/-- A moment between two seconds is kept as the minute it falls in, and so is that minute; the
last minute is kept once. -/
theorem normalize_of_normalized_noon :
    normalize shortlyPastNoon calls " NOW ".toList = .ok "2025-06-02T12:05".toList ∧
    normalize .earliest calls "2025-06-02T12:05".toList = .ok "2025-06-02T12:05".toList ∧
    normalize shortlyPastNoon calls "+262142-12-31 23:59:00".toList =
      .ok "+262142-12-31T23:59".toList ∧
    normalize .earliest calls "+262142-12-31T23:59".toList =
      .error (.invalidValue "Call".toList "+262142-12-31T23:59".toList) := by
  have hNoon : normalize shortlyPastNoon calls " NOW ".toList = .ok "2025-06-02T12:05".toList := by
    decide +kernel
  have hLast : normalize shortlyPastNoon calls "+262142-12-31 23:59:00".toList =
      .ok "+262142-12-31T23:59".toList := by
    decide +kernel
  have hOther : ¬ IsLastMinute calls "2025-06-02T12:05".toList :=
    fun h => absurd h.text (by decide)
  exact ⟨hNoon, (normalize_of_normalized hNoon .earliest).1 hOther, hLast,
    (normalize_of_normalized hLast .earliest).2 ⟨Or.inr (Or.inr rfl), rfl⟩⟩

end Value

end TableTalk
