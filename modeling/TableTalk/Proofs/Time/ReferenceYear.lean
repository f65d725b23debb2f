import TableTalk.Proofs.Time.Hours

/-!
# The year of a typed day

A day may be typed as a month and a day alone, such as `3/14`, or with a year of four digits
after them.  The year of the first form is that of the reference instant, and it is written into
the text before the text is read again.  Years of two digits are tried before full years, so
that a year could be taken for its first two digits, and the others for an hour.

This never happens (`Typed.NamesDay.cases_of_take?`).  The two digits that are left of a year are
followed by a blank or nothing, while the hour of a clock time is followed by a colon, and
nothing follows a whole day.  A year with a sign does not open with a digit.

`Typed.NamesDay` has the texts of both forms with anything after a blank, and the year that they
are about.  Trimming, writing in the reference year and cutting off an hour lead from such texts
to such texts.  No other form of an instant or span opens with a month and a slash, and so
`Typed.days_in_their_year` holds of all of them.  With nothing after the day, the text is read
as the whole of it (`Typed.DayHead.ofTyped?_eq`).
-/

namespace TableTalk

/-! ### Written years -/

namespace Field

variable {rest text : Text} {n : Nat} {y : Int}

/-- A number of two digits leaves the other two of a year. -/
theorem WritesYear.exists_of_number? {left : Text} (h : WritesYear y text)
    (hRead : number? 2 (text ++ rest) = some (n, left)) :
    ∃ other, IsShort other ∧ left = other ++ rest := by
  cases h with
  | plain _ hLength hDigits =>
      have hFirst : (text.take 2).length = 2 := by
        rw [List.length_take, hLength]
        rfl
      have hOther : IsShort (text.drop 2) := by
        refine ⟨Or.inr ?_, fun c hc => hDigits c (List.mem_of_mem_drop hc)⟩
        rw [List.length_drop, hLength]
      have hTwo : IsShort (text.take 2) :=
        ⟨Or.inr hFirst, fun c hc => hDigits c (List.mem_of_mem_take hc)⟩
      have hTaken := Field.digitsUpTo?_append (text.take 2) (text.drop 2 ++ rest) hTwo.isDigit
        (List.ne_nil_of_length_pos (by omega))
      have hText : text ++ rest = text.take 2 ++ (text.drop 2 ++ rest) := by
        rw [← List.append_assoc, List.take_append_drop]
      rw [hText, number?, hTwo.skipBlanks_append] at hRead
      rw [hFirst, hRead] at hTaken
      obtain ⟨-, rfl⟩ := Prod.mk.inj (Option.some.inj hTaken)
      exact ⟨text.drop 2, hOther, rfl⟩
  | minus digits hSome hDigits =>
      rw [number?, List.cons_append, Text.skipBlanks_cons (by decide)] at hRead
      simp [digitsUpTo?] at hRead
  | plus digits hSome hDigits =>
      rw [number?, List.cons_append, Text.skipBlanks_cons (by decide)] at hRead
      simp [digitsUpTo?] at hRead

theorem WritesYear.countP_eq_zero {p : Char → Bool} (hp : PlainMark p) (h : WritesYear y text) :
    text.countP p = 0 := by
  cases h with
  | plain _ _ hDigits => exact hp.countP_digits hDigits
  | minus digits _ hDigits =>
      rw [countP_cons_eq, hp.countP_digits hDigits, marksOf_of_not hp.dash]
  | plus digits _ hDigits =>
      rw [countP_cons_eq, hp.countP_digits hDigits, marksOf_of_not hp.plus]

theorem WritesYear.solid (h : WritesYear y text) : Text.Solid text := by
  cases h with
  | plain _ _ hDigits => exact Text.solid_of_digits hDigits
  | minus digits _ hDigits =>
      exact List.forall_mem_cons.mpr ⟨by decide, Text.solid_of_digits hDigits⟩
  | plus digits _ hDigits =>
      exact List.forall_mem_cons.mpr ⟨by decide, Text.solid_of_digits hDigits⟩

end Field

/-! ### Days of a year -/

/-- Digits with no colon after them are no clock time. -/
theorem ClockStyle.read_eq_none {digits rest : Text} (hDigits : Field.IsShort digits)
    (hNext : Text.BlankNext rest) (style : ClockStyle) : style.read (digits ++ rest) = none := by
  have hHour := hDigits.number?_append (Field.DigitsEnd.of_blankNext hNext)
  have hColon : Field.char? ':' rest = none := Field.char?_of_blankNext (by decide) hNext
  unfold read
  cases style <;> simp only [take?, hHour, hColon, Option.bind_eq_bind, Option.bind_some,
    Option.bind_none]

theorem Gap.eq_of_take? {digits rest left : Text} (hDigits : Field.IsShort digits) {gap : Gap}
    (h : gap.take? (digits ++ rest) = some left) : left = digits ++ rest := by
  cases gap with
  | letter =>
      obtain ⟨c, more, hc, rfl⟩ := hDigits.exists_cons
      rw [take?, List.cons_append, Field.char?, if_neg] at h
      · cases h
      · rintro rfl
        cases hc
  | blanks =>
      rw [← Option.some.inj h, hDigits.skipBlanks_append]

theorem Instant.date_of_ofClock? {d : Date} {hour minute second : Nat} {t : Instant}
    (h : ofClock? d hour minute second = some t) : t.date = d := by
  unfold ofClock? at h
  split at h
  · rw [← Option.some.inj h]
  · split at h
    · rw [← Option.some.inj h]
    · cases h

/-- The date is the one that the month and the day name in a year. -/
def Date.IsNamed (d : Date) (year : Int) (month day : Text) : Prop :=
  d.year = year ∧ d.month = Nat.ofDigitChars 10 month 0 ∧ d.day = Nat.ofDigitChars 10 day 0

theorem Interval.start_of_startingAt {start : Instant} {seconds : Int} {i : Interval}
    (h : startingAt start seconds = some i) : i.start = start := by
  obtain ⟨stop, -, rfl⟩ := Option.map_eq_some_iff.mp h
  rfl

namespace Typed

/-- What a text opens with that names a day by a month and a day: no more than these, and then
the year is that of the reference instant, or a year after them. -/
inductive DayHead (reference : Int) (month day : Text) : Int → Text → Prop
  | bare : DayHead reference month day reference (month ++ '/' :: day)
  | dated {year : Int} {text : Text} (hYear : Field.WritesYear year text) :
      DayHead reference month day year (month ++ '/' :: (day ++ '/' :: text))

/-- The text names a day of a year.  After a blank it may go on in any way. -/
structure NamesDay (reference : Int) (month day : Text) (year : Int) (t : Text) : Prop where
  month_short : Field.IsShort month
  day_short : Field.IsShort day
  exists_head : ∃ head rest, DayHead reference month day year head ∧ Text.BlankNext rest ∧
    t = head ++ rest

variable {reference year : Int} {month day head rest t : Text} {d : Date}

theorem DayHead.solid (hMonth : Field.IsShort month) (hDay : Field.IsShort day)
    (h : DayHead reference month day year head) : Text.Solid head := by
  have hFirst := Text.solid_of_digits hMonth.isDigit
  have hSecond := Text.solid_of_digits hDay.isDigit
  have hSlash : Text.isBlank '/' = false := by decide
  cases h with
  | bare =>
      exact List.forall_mem_append.mpr ⟨hFirst, List.forall_mem_cons.mpr ⟨hSlash, hSecond⟩⟩
  | dated hYear =>
      exact List.forall_mem_append.mpr ⟨hFirst, List.forall_mem_cons.mpr ⟨hSlash,
        List.forall_mem_append.mpr ⟨hSecond, List.forall_mem_cons.mpr ⟨hSlash, hYear.solid⟩⟩⟩⟩

theorem DayHead.ne_nil (h : DayHead reference month day year head) : head ≠ [] := by
  cases h with
  | bare => exact List.append_ne_nil_of_right_ne_nil _ (List.cons_ne_nil _ _)
  | dated => exact List.append_ne_nil_of_right_ne_nil _ (List.cons_ne_nil _ _)

/-- What stands before the hour of a text ends at a blank. -/
theorem exists_of_splitHour? {before : Text} {hour : Nat} {half : Option Field.Meridiem}
    (h : splitHour? t = some (before, hour, half)) :
    ∃ c after, t = before ++ c :: after ∧ Text.isBlank c = true := by
  obtain ⟨digits, hHour, -⟩ := exists_isHour h
  obtain ⟨gap, tail, hGap, hSome, -, rfl⟩ := hHour.exists_parts
  obtain ⟨c, gap, rfl⟩ := List.exists_cons_of_ne_nil hSome
  exact ⟨c, gap ++ (digits ++ tail), by simp, hGap c List.mem_cons_self⟩

namespace NamesDay

theorem trim (h : NamesDay reference month day year t) :
    NamesDay reference month day year (Text.trim t) := by
  obtain ⟨hMonth, hDay, head, rest, hHead, hNext, rfl⟩ := h
  refine ⟨hMonth, hDay, head, Text.trimEnd rest, hHead, hNext.trimEnd, ?_⟩
  exact Text.trim_append_of_solid (hHead.solid hMonth hDay) hHead.ne_nil rest

/-- What stands before a blank names the day as well. -/
theorem before {before after : Text} {c : Char}
    (h : NamesDay reference month day year (before ++ c :: after))
    (hc : Text.isBlank c = true) : NamesDay reference month day year before := by
  obtain ⟨hMonth, hDay, head, rest, hHead, hNext, hText⟩ := h
  have hSolid := hHead.solid hMonth hDay
  rcases Text.cases_of_append_eq hText.symm with ⟨more, rfl, -⟩ | ⟨more, rfl, rfl⟩
  · have hNot := hSolid c (by simp)
    rw [hc] at hNot
    cases hNot
  · exact ⟨hMonth, hDay, head, more, hHead, hNext.of_append, rfl⟩

/-- With the reference year written in, the text names the same day. -/
theorem withYear? {dated : Text} (h : NamesDay reference month day year t)
    (hDated : Typed.withYear? reference t = some dated) :
    NamesDay reference month day year dated := by
  obtain ⟨hMonth, hDay, head, rest, hHead, hNext, rfl⟩ := h
  cases hHead with
  | bare =>
      have hFirst := hMonth.dayOrMonth?_append (.cons (c := '/') (by decide) (day ++ rest))
      have hSecond := hDay.dayOrMonth?_append (.of_blankNext hNext)
      refine ⟨hMonth, hDay, _, rest, .dated (Field.writesYear_year reference), hNext, ?_⟩
      simp only [Typed.withYear?, List.append_assoc, List.cons_append, hFirst, hSecond,
        Field.char?, if_true, Option.bind_eq_bind, Option.bind_some] at hDated
      split at hDated
      · simpa using (Option.some.inj hDated).symm
      · split at hDated
        · simpa using (Option.some.inj hDated).symm
        · cases hDated
  | dated hYear =>
      rename_i text
      have hFirst := hMonth.dayOrMonth?_append
        (.cons (c := '/') (by decide) (day ++ '/' :: (text ++ rest)))
      have hSecond := hDay.dayOrMonth?_append (.cons (c := '/') (by decide) (text ++ rest))
      have hBlank : Text.isBlank '/' = false := by decide
      simp only [Typed.withYear?, List.append_assoc, List.cons_append, hFirst, hSecond,
        Field.char?, if_true, Option.bind_eq_bind, Option.bind_some, hBlank, Bool.false_and,
        Bool.false_eq_true, if_false, reduceCtorEq] at hDated

/-- The day stands between two other characters, and a slash after it is followed by a year. -/
theorem exists_after (h : NamesDay reference month day year t) :
    ∃ after, t = month ++ '/' :: (day ++ after) ∧ Field.DigitsEnd after ∧
      ∀ left, Field.char? '/' after = some left → ∃ text rest, Field.WritesYear year text ∧
        Text.BlankNext rest ∧ left = text ++ rest := by
  obtain ⟨-, -, head, rest, hHead, hNext, rfl⟩ := h
  cases hHead with
  | bare =>
      refine ⟨rest, by simp, .of_blankNext hNext, fun left hSlash => ?_⟩
      rw [Field.char?_of_blankNext (by decide) hNext] at hSlash
      cases hSlash
  | dated hYear =>
      rename_i text
      refine ⟨'/' :: (text ++ rest), by simp, .cons (by decide) _, fun left hSlash => ?_⟩
      obtain rfl : text ++ rest = left := Option.some.inj hSlash
      exact ⟨text, rest, hYear, hNext, rfl⟩

/-- A day that is taken off such a text is in the full style and the day that the text names, or
it is in the short style and leaves two digits of the year. -/
theorem cases_of_take? (h : NamesDay reference month day year t) {style : DayStyle} {left : Text}
    (hTake : style.take? t = some (d, left)) :
    (style = .fullYear ∧
      d.IsNamed year month day) ∨
    style = .shortYear ∧ ∃ digits rest, Field.IsShort digits ∧ Text.BlankNext rest ∧
      left = digits ++ rest := by
  obtain ⟨after, rfl, hEnd, hAfter⟩ := h.exists_after
  have hFirst := h.month_short.number?_append (.cons (c := '/') (by decide) (day ++ after))
  have hSlash : Field.char? '/' ('/' :: (day ++ after)) = some (day ++ after) := rfl
  have hSecond := h.day_short.number?_append hEnd
  cases style with
  | iso =>
      -- The month is taken for a year, and no dash comes next.
      have hYear := h.month_short.year?_append (.cons (c := '/') (by decide) (day ++ after))
      have hDash : Field.char? '-' ('/' :: (day ++ after)) = none := rfl
      simp only [DayStyle.take?, hYear, hDash, Option.bind_eq_bind, Option.bind_some,
        Option.bind_none, reduceCtorEq] at hTake
  | shortYear =>
      simp only [DayStyle.take?, hFirst, hSlash, hSecond, Option.bind_eq_bind, Option.bind_some,
        Option.bind_eq_some_iff, Option.pure_def, Option.some.injEq, Prod.mk.injEq, Prod.exists]
        at hTake
      obtain ⟨t₁, hNext, n, t₂, hNumber, date, -, rfl, rfl⟩ := hTake
      obtain ⟨text, rest, hYear, hRest, rfl⟩ := hAfter t₁ hNext
      obtain ⟨digits, hDigits, rfl⟩ := hYear.exists_of_number? hNumber
      exact Or.inr ⟨rfl, digits, rest, hDigits, hRest, rfl⟩
  | fullYear =>
      simp only [DayStyle.take?, hFirst, hSlash, hSecond, Option.bind_eq_bind, Option.bind_some,
        Option.bind_eq_some_iff, Option.pure_def, Option.some.injEq, Prod.mk.injEq, Prod.exists]
        at hTake
      obtain ⟨t₁, hNext, y, t₂, hNumber, date, hParts, rfl, rfl⟩ := hTake
      obtain ⟨text, rest, hYear, hRest, rfl⟩ := hAfter t₁ hNext
      rw [hYear.year?_append (.of_blankNext hRest)] at hNumber
      obtain ⟨rfl, rfl⟩ := Prod.mk.inj (Option.some.inj hNumber)
      exact Or.inl ⟨rfl, Date.ofParts?_eq_some_iff.mp hParts⟩

theorem of_read_day (h : NamesDay reference month day year t) {style : DayStyle}
    (hRead : style.read t = some d) : style = .fullYear ∧
      d.IsNamed year month day := by
  unfold DayStyle.read at hRead
  split at hRead
  · rename_i date hTake
    obtain rfl := Option.some.inj hRead
    rcases h.cases_of_take? hTake with hFull | ⟨-, digits, rest, hDigits, -, hLeft⟩
    · exact hFull
    · obtain ⟨c, more, -, rfl⟩ := hDigits.exists_cons
      cases hLeft
  · cases hRead

theorem of_read_instant (h : NamesDay reference month day year t) {style : InstantStyle}
    {i : Instant} (hRead : style.read t = some i) : style.day = .fullYear ∧
      i.date.IsNamed year month day := by
  simp only [InstantStyle.read, Option.bind_eq_bind, Option.bind_eq_some_iff, Prod.exists]
    at hRead
  obtain ⟨date, left, hTake, left', hGap, clock, hClock, hInstant⟩ := hRead
  rw [Instant.date_of_ofClock? hInstant]
  rcases h.cases_of_take? hTake with hFull | ⟨-, digits, rest, hDigits, hNext, rfl⟩
  · exact hFull
  · obtain rfl := Gap.eq_of_take? hDigits hGap
    rw [ClockStyle.read_eq_none hDigits hNext] at hClock
    cases hClock

/-- Such a text is read as one of its kind, the reference year written in or not. -/
theorem of_orWithYear {α : Type} {read : Text → Option α} {x : α}
    (h : NamesDay reference month day year t) (hRead : orWithYear reference read t = some x) :
    ∃ s, NamesDay reference month day year s ∧ read s = some x := by
  rcases cases_of_orWithYear hRead with hPlain | ⟨dated, hDated, hThen⟩
  · exact ⟨t, h, hPlain⟩
  · exact ⟨dated, h.withYear? hDated, hThen⟩

theorem of_instantStyles {styles : List InstantStyle} {i : Instant}
    (h : NamesDay reference month day year t)
    (hRead : orWithYear reference (Instant.ofStyles? styles) t = some i) :
    i.date.IsNamed year month day := by
  obtain ⟨s, hNames, hStyles⟩ := h.of_orWithYear hRead
  obtain ⟨style, -, hStyle⟩ := Instant.exists_of_ofStyles? hStyles
  exact (hNames.of_read_instant hStyle).2

/-! ### Other forms -/

theorem exists_digit_cons (h : NamesDay reference month day year t) :
    ∃ c more, c.isDigit = true ∧ t = c :: more := by
  obtain ⟨after, rfl, -⟩ := h.exists_after
  obtain ⟨c, more, hc, hMonth⟩ := h.month_short.exists_cons
  exact ⟨c, more ++ '/' :: (day ++ after), hc, by rw [hMonth, List.cons_append]⟩

theorem afterNow?_eq_none (h : NamesDay reference month day year t) : afterNow? t = none := by
  obtain ⟨c, more, hc, rfl⟩ := h.exists_digit_cons
  refine Option.eq_none_iff_forall_ne_some.mpr fun rest hNow => ?_
  unfold afterNow? at hNow
  split at hNow
  · rename_i n o w rest' hText
    obtain ⟨rfl, -⟩ := List.cons.inj hText
    split at hNow
    · rename_i hWord
      have hLetter : c.toLower = 'n' := (List.cons.inj hWord).1
      have hNone := mark_letterN.digit c hc
      rw [isLetterN, hLetter] at hNone
      cases hNone
    · cases hNow
  · cases hNow

/-- No word for a day has a slash. -/
theorem dayWord?_eq_none (h : NamesDay reference month day year t) : dayWord? t = none := by
  obtain ⟨after, rfl, -⟩ := h.exists_after
  refine Option.eq_none_iff_forall_ne_some.mpr fun days hWord => ?_
  have hSlash : '/' ∈ Text.lower (month ++ '/' :: (day ++ after)) :=
    List.mem_map.mpr ⟨'/', List.mem_append_right _ List.mem_cons_self, rfl⟩
  have hNone : ∀ word ∈ ["today".toList, "yesterday".toList, "tomorrow".toList, "tmw".toList],
      '/' ∉ word := by decide +kernel
  exact hNone _ (lower_mem_of_dayWord? hWord) hSlash

/-- A stored pair has dashes before its first slash. -/
theorem ofStored?_eq_none (h : NamesDay reference month day year t) :
    Interval.ofStored? t = none := by
  obtain ⟨rest, rfl, -⟩ := h.exists_after
  refine Option.eq_none_iff_forall_ne_some.mpr fun i hPair => ?_
  obtain ⟨before, after, hText, hStart, -⟩ := Interval.exists_of_ofStored? hPair
  have hDashes := (Instant.countP_ofStored? mark_dash hStart).1
  have hSlashes := (Instant.countP_ofStored? mark_slash hStart).2
  rw [mark_dash.countP_trim] at hDashes
  rw [mark_slash.countP_trim] at hSlashes
  rcases Text.cases_of_append_eq hText with ⟨more, hMonth, -⟩ | ⟨more, rfl, hMore⟩
  · have hDigit := h.month_short.isDigit '/' (by simp [hMonth])
    cases hDigit
  · rcases more with _ | ⟨c, more⟩
    · -- The first part is the month alone.
      rw [List.append_nil, mark_dash.countP_digits h.month_short.isDigit] at hDashes
      exact absurd hDashes (by decide)
    · obtain ⟨rfl, -⟩ := List.cons.inj hMore
      rw [List.countP_append, countP_cons_eq] at hSlashes
      have hOne : marksOf (· == '/') '/' = 1 := rfl
      have hNone : 3 * marksOf (· == '/') '-' + marksOf (· == '/') '+' +
          2 * marksOf (· == '/') ':' = 0 := rfl
      omega

/-! ### Typed instants and spans -/

variable {now : Instant}

theorem of_day? (h : NamesDay now.date.year month day year t) (hDay : day? now t = some d) :
    d.IsNamed year month day := by
  rw [day?, h.dayWord?_eq_none] at hDay
  obtain ⟨s, hNames, hStyles⟩ := h.of_orWithYear hDay
  obtain ⟨style, -, hStyle⟩ := Date.exists_of_ofStyles? hStyles
  exact (hNames.of_read_day hStyle).2

theorem of_hour? {i : Instant} (h : NamesDay now.date.year month day year t)
    (hHour : hour? now t = some i) :
    i.date.IsNamed year month day := by
  simp only [hour?, Option.bind_eq_bind, Option.bind_eq_some_iff, Prod.exists] at hHour
  obtain ⟨before, hour, half, hSplit, date, hDay, hourOfDay, -, hClock⟩ := hHour
  obtain ⟨c, after, rfl, hc⟩ := exists_of_splitHour? hSplit
  rw [Instant.date_of_ofClock? hClock]
  exact (h.before hc).trim.of_day? hDay

theorem instant {i : Instant} (h : NamesDay now.date.year month day year t)
    (hTyped : Instant.ofTyped? now t = some i) :
    i.date.IsNamed year month day := by
  rcases Instant.cases_of_ofTyped? hTyped with hSecond | ⟨rest, hNow, -⟩
  · exact h.trim.of_instantStyles hSecond
  · rw [h.trim.afterNow?_eq_none] at hNow
    cases hNow

theorem interval {i : Interval} (h : NamesDay now.date.year month day year t)
    (hTyped : Interval.ofTyped? now t = some i) :
    i.start.date.IsNamed year month day := by
  rcases Interval.cases_of_ofTyped? hTyped with hStored | ⟨start, hMinute, hSpan⟩ |
    ⟨start, hHour, hSpan⟩ | ⟨date, hDay, hSpan⟩
  · rw [h.trim.ofStored?_eq_none] at hStored
    cases hStored
  · rw [Interval.start_of_startingAt hSpan]
    exact h.trim.of_instantStyles hMinute
  · rw [Interval.start_of_startingAt hSpan]
    exact h.trim.of_hour? hHour
  · rw [Interval.start_of_startingAt hSpan]
    exact h.trim.of_day? hDay

end NamesDay

/-! ### Whole days -/

theorem orWithYear_ne_none {α : Type} {read : Text → Option α}
    (h : read t ≠ none ∨ ∃ dated, Typed.withYear? reference t = some dated ∧ read dated ≠ none) :
    orWithYear reference read t ≠ none := by
  unfold orWithYear
  cases hRead : read t with
  | some x => exact Option.some_ne_none x
  | none =>
      rcases h with hPlain | ⟨dated, hDated, hThen⟩
      · exact absurd hRead hPlain
      · rw [hDated]
        exact hThen

theorem withYear?_bare (hMonth : Field.IsShort month) (hDay : Field.IsShort day) :
    Typed.withYear? reference (month ++ '/' :: day) =
      some (month ++ '/' :: (day ++ '/' :: Field.year reference)) := by
  have hFirst := hMonth.dayOrMonth?_append (.cons (c := '/') (by decide) day)
  have hSecond := hDay.dayOrMonth?_append (.of_blankNext Text.BlankNext.nil)
  rw [List.append_nil] at hSecond
  simp only [Typed.withYear?, hFirst, hSecond, Field.char?, if_true, Option.bind_eq_bind,
    Option.bind_some, Option.pure_def, List.append_nil, List.append_assoc, List.cons_append]

/-- A full year with nothing after it is read, if the calendar has the day. -/
theorem ofStyles?_ne_none (hMonth : Field.IsShort month) (hDay : Field.IsShort day) {text : Text}
    (hYear : Field.WritesYear year text)
    (hParts : Date.ofParts? year (Nat.ofDigitChars 10 month 0) (Nat.ofDigitChars 10 day 0) =
      some d) :
    Date.ofStyles? dayStyles (month ++ '/' :: (day ++ '/' :: text)) ≠ none := by
  have hFirst := hMonth.number?_append (.cons (c := '/') (by decide) (day ++ '/' :: text))
  have hSecond := hDay.number?_append (.cons (c := '/') (by decide) text)
  have hThird := hYear.year?_append (.of_blankNext Text.BlankNext.nil)
  rw [List.append_nil] at hThird
  have hRead : DayStyle.fullYear.read (month ++ '/' :: (day ++ '/' :: text)) = some d := by
    simp only [DayStyle.read, DayStyle.take?, hFirst, hSecond, hThird, hParts, Field.char?,
      if_true, Option.bind_eq_bind, Option.bind_some, Option.pure_def]
  have hMem : DayStyle.fullYear ∈ dayStyles := by decide
  intro hNone
  have hStyle := List.findSome?_eq_none_iff.mp hNone .fullYear hMem
  rw [hRead] at hStyle
  cases hStyle

namespace DayHead

variable {now : Instant}

theorem namesDay (h : DayHead reference month day year head) (hMonth : Field.IsShort month)
    (hDay : Field.IsShort day) : NamesDay reference month day year head :=
  ⟨hMonth, hDay, head, [], h, Text.BlankNext.nil, (List.append_nil head).symm⟩

theorem day?_eq (h : DayHead now.date.year month day year head) (hMonth : Field.IsShort month)
    (hDay : Field.IsShort day) : day? now head =
      Date.ofParts? year (Nat.ofDigitChars 10 month 0) (Nat.ofDigitChars 10 day 0) := by
  have hNames := h.namesDay hMonth hDay
  have hNamed : ∀ d, day? now head = some d →
      Date.ofParts? year (Nat.ofDigitChars 10 month 0) (Nat.ofDigitChars 10 day 0) = some d :=
    fun d hd => Date.ofParts?_eq_some_iff.mpr (hNames.of_day? hd)
  cases hParts : Date.ofParts? year (Nat.ofDigitChars 10 month 0) (Nat.ofDigitChars 10 day 0) with
  | none =>
      refine Option.eq_none_iff_forall_ne_some.mpr fun d hd => ?_
      rw [hNamed d hd] at hParts
      cases hParts
  | some d =>
      have hRead : day? now head ≠ none := by
        rw [day?, hNames.dayWord?_eq_none]
        refine orWithYear_ne_none ?_
        cases h with
        | bare =>
            have hYear := Field.writesYear_year now.date.year
            exact Or.inr ⟨_, withYear?_bare hMonth hDay, ofStyles?_ne_none hMonth hDay hYear hParts⟩
        | dated hYear => exact Or.inl (ofStyles?_ne_none hMonth hDay hYear hParts)
      obtain ⟨d', hd'⟩ := Option.ne_none_iff_exists'.mp hRead
      rw [hd', ← hNamed d' hd', hParts]

theorem countP_eq_zero {p : Char → Bool} (hp : PlainMark p)
    (h : DayHead reference month day year head) (hMonth : Field.IsShort month)
    (hDay : Field.IsShort day) : head.countP p = 0 := by
  have hFirst := hp.countP_digits hMonth.isDigit
  have hSecond := hp.countP_digits hDay.isDigit
  have hSlash := marksOf_of_not hp.slash
  cases h with
  | bare => rw [List.countP_append, countP_cons_eq, hFirst, hSecond, hSlash]
  | dated hYear =>
      rw [List.countP_append, countP_cons_eq, List.countP_append, countP_cons_eq, hFirst, hSecond,
        hSlash, hYear.countP_eq_zero hp]

/-- Alone, the text is the whole of the day, if the calendar has it. -/
theorem ofTyped?_eq (h : DayHead now.date.year month day year head)
    (hMonth : Field.IsShort month) (hDay : Field.IsShort day) :
    Interval.ofTyped? now head =
      (Date.ofParts? year (Nat.ofDigitChars 10 month 0) (Nat.ofDigitChars 10 day 0)).bind
        fun d => Interval.startingAt (.midnight d) 86400 := by
  have hNames := h.namesDay hMonth hDay
  have hSolid := h.solid hMonth hDay
  -- A minute needs a colon, and an hour a blank.
  have hMinute : orWithYear now.date.year (Instant.ofStyles? minuteStyles) head = none := by
    refine Option.eq_none_iff_forall_ne_some.mpr fun i hRead => ?_
    have hCount := plainMark_colon.countP_orWithYear 1 (by decide) hRead
    rw [h.countP_eq_zero plainMark_colon hMonth hDay] at hCount
    cases hCount
  have hHour : hour? now head = none := by
    refine Option.eq_none_iff_forall_ne_some.mpr fun i hRead => ?_
    simp only [hour?, Option.bind_eq_bind, Option.bind_eq_some_iff, Prod.exists] at hRead
    obtain ⟨before, hour, half, hSplit, -⟩ := hRead
    obtain ⟨c, after, rfl, hc⟩ := exists_of_splitHour? hSplit
    have hNot := hSolid c (List.mem_append_right _ List.mem_cons_self)
    rw [hc] at hNot
    cases hNot
  unfold Interval.ofTyped?
  rw [Text.trim_of_solid hSolid]
  dsimp only
  rw [hNames.ofStored?_eq_none, hMinute, hHour, h.day?_eq hMonth hDay]
  cases Date.ofParts? year (Nat.ofDigitChars 10 month 0) (Nat.ofDigitChars 10 day 0) with
  | none => rfl
  | some d => rfl

end DayHead

/-- **Days fall in their year.**  A text that opens with a month and a day, and goes on after a
blank or not at all, names no instant and no start of a span but one of this month and day in the
year of the reference instant.  If a year of four digits follows the day, then it names one of
that year, and in no style is the year read from two digits.  Alone, either text is the whole of
its day, if the calendar has it. -/
theorem days_in_their_year (now : Instant) {month day : Text} (hMonth : Field.IsShort month)
    (hDay : Field.IsShort day) :
    (∀ rest, Text.BlankNext rest →
      (∀ i, Instant.ofTyped? now (month ++ '/' :: (day ++ rest)) = some i →
        i.date.IsNamed now.date.year month day) ∧
      ∀ i, Interval.ofTyped? now (month ++ '/' :: (day ++ rest)) = some i →
        i.start.date.IsNamed now.date.year month day) ∧
    Interval.ofTyped? now (month ++ '/' :: day) =
      (Date.ofParts? now.date.year (Nat.ofDigitChars 10 month 0) (Nat.ofDigitChars 10 day 0)).bind
        (fun d => Interval.startingAt (.midnight d) 86400) ∧
    ∀ year : Text, year.length = 4 → (∀ c ∈ year, c.isDigit = true) →
      (∀ rest, Text.BlankNext rest →
        (∀ i, Instant.ofTyped? now (month ++ '/' :: (day ++ '/' :: (year ++ rest))) = some i →
          i.date.IsNamed (Nat.ofDigitChars 10 year 0) month day) ∧
        (∀ i, Interval.ofTyped? now (month ++ '/' :: (day ++ '/' :: (year ++ rest))) = some i →
          i.start.date.IsNamed (Nat.ofDigitChars 10 year 0) month day) ∧
        DayStyle.shortYear.read (month ++ '/' :: (day ++ '/' :: (year ++ rest))) = none ∧
        ∀ gap clock, InstantStyle.read ⟨.shortYear, gap, clock⟩
          (month ++ '/' :: (day ++ '/' :: (year ++ rest))) = none) ∧
      Interval.ofTyped? now (month ++ '/' :: (day ++ '/' :: year)) =
        (Date.ofParts? (Nat.ofDigitChars 10 year 0) (Nat.ofDigitChars 10 month 0)
          (Nat.ofDigitChars 10 day 0)).bind fun d => Interval.startingAt (.midnight d) 86400 := by
  refine ⟨fun rest hRest => ?_, DayHead.bare.ofTyped?_eq hMonth hDay,
    fun year hLength hDigits => ⟨fun rest hRest => ?_, ?_⟩⟩
  · have hNames : NamesDay now.date.year month day now.date.year (month ++ '/' :: (day ++ rest)) :=
      ⟨hMonth, hDay, _, rest, .bare, hRest, by simp⟩
    exact ⟨fun i => hNames.instant, fun i => hNames.interval⟩
  · have hNames : NamesDay now.date.year month day (Nat.ofDigitChars 10 year 0)
        (month ++ '/' :: (day ++ '/' :: (year ++ rest))) :=
      ⟨hMonth, hDay, _, rest, .dated (.plain year hLength hDigits), hRest, by simp⟩
    refine ⟨fun i => hNames.instant, fun i => hNames.interval, ?_, fun gap clock => ?_⟩
    · refine Option.eq_none_iff_forall_ne_some.mpr fun d hRead => ?_
      cases (hNames.of_read_day hRead).1
    · refine Option.eq_none_iff_forall_ne_some.mpr fun i hRead => ?_
      cases (hNames.of_read_instant hRead).1
  · exact (DayHead.dated (.plain year hLength hDigits)).ofTyped?_eq hMonth hDay

/-- A day of 2027. -/
def august : Instant :=
  .midnight ⟨2027, 8, 19, by decide⟩

/-- The hour from nine in the evening on a day of March. -/
def marchNine (year : Int) (h : IsDay year 3 14) : Interval :=
  ⟨⟨⟨year, 3, 14, h⟩, 75600, 0, by decide, Or.inl (by decide)⟩,
    ⟨⟨year, 3, 14, h⟩, 79200, 0, by decide, Or.inl (by decide)⟩⟩

/-- Nine seconds after five past nine in the evening on that day. -/
def marchMoment (year : Int) (h : IsDay year 3 14) : Instant :=
  ⟨⟨year, 3, 14, h⟩, 75909, 0, by decide, Or.inl (by decide)⟩

/-- Texts without a year fall in 2027.  Those with the year 1995 fall in that year, and not in
2019 as its first two digits say.  An hour opens an interval, and a time with seconds is an
instant. -/
theorem days_in_their_year_august :
    Field.IsShort ['3'] ∧ Field.IsShort ['1', '4'] ∧ Text.BlankNext " 9pm".toList ∧
    Text.BlankNext " 21:05:09".toList ∧
    Interval.ofTyped? august "3/14 9pm".toList = some (marchNine 2027 (by decide)) ∧
    (marchNine 2027 (by decide)).start.date.IsNamed 2027 ['3'] ['1', '4'] ∧
    Interval.ofTyped? august "3/14/1995 9pm".toList = some (marchNine 1995 (by decide)) ∧
    (marchNine 1995 (by decide)).start.date.IsNamed 1995 ['3'] ['1', '4'] ∧
    Instant.ofTyped? august "3/14 21:05:09".toList = some (marchMoment 2027 (by decide)) ∧
    (marchMoment 2027 (by decide)).date.IsNamed 2027 ['3'] ['1', '4'] ∧
    Instant.ofTyped? august "3/14/1995 21:05:09".toList =
      some (marchMoment 1995 (by decide)) ∧
    (marchMoment 1995 (by decide)).date.IsNamed 1995 ['3'] ['1', '4'] := by
  have hMonth : Field.IsShort ['3'] := ⟨Or.inl rfl, by simp⟩
  have hDay : Field.IsShort ['1', '4'] := ⟨Or.inr rfl, by simp⟩
  have hHour : Text.BlankNext " 9pm".toList := by
    simp [Text.BlankNext, Text.isBlank_space]
  have hClock : Text.BlankNext " 21:05:09".toList := by
    simp [Text.BlankNext, Text.isBlank_space]
  obtain ⟨hBare, -, hDated⟩ := days_in_their_year august hMonth hDay
  obtain ⟨hFull, -⟩ := hDated "1995".toList rfl (by simp)
  have hEvening : Interval.ofTyped? august "3/14 9pm".toList =
      some (marchNine 2027 (by decide)) := by decide +kernel
  have hEveningDated : Interval.ofTyped? august "3/14/1995 9pm".toList =
      some (marchNine 1995 (by decide)) := by decide +kernel
  have hMoment : Instant.ofTyped? august "3/14 21:05:09".toList =
      some (marchMoment 2027 (by decide)) := by decide +kernel
  have hMomentDated : Instant.ofTyped? august "3/14/1995 21:05:09".toList =
      some (marchMoment 1995 (by decide)) := by decide +kernel
  exact ⟨hMonth, hDay, hHour, hClock, hEvening, (hBare _ hHour).2 _ hEvening, hEveningDated,
    (hFull _ hHour).2.1 _ hEveningDated, hMoment, (hBare _ hClock).1 _ hMoment, hMomentDated,
    (hFull _ hClock).1 _ hMomentDated⟩

end Typed

end TableTalk
