import TableTalk.Proofs.Text.Words
import TableTalk.Proofs.Time.Marks
import TableTalk.Proofs.Time.Readers

/-!
# The forms of typed times

A typed text is never both an instant and a span (`Instant.ofTyped?_eq_none`), although
values are first read as the one and filters first as the other.  Three kinds of marks
tell the forms apart, whatever the blanks around and between the fields:

* an instant to the second has two colons and at most three dashes;
* `now`, moved or not, has the letter `n`, which no span has;
* a stored pair has at least four dashes, two for either day;
* a minute has one colon, an hour and a day have none.

A month and day without a year take part in this as they stand: the year written into
them adds neither colons nor letters, and takes no dash away.
-/

namespace TableTalk

/-! ### The three kinds of marks -/

theorem Field.Meridiem.letters_of_ofLetters? {a m : Char} {half : Field.Meridiem}
    (h : ofLetters? a m = some half) : (a.toLower = 'a' ∨ a.toLower = 'p') ∧ m.toLower = 'm' := by
  unfold ofLetters? at h
  split at h
  · rename_i hm
    split at h
    · rename_i ha
      exact ⟨Or.inl ha, hm⟩
    · split at h
      · rename_i ha
        exact ⟨Or.inr ha, hm⟩
      · cases h
  · cases h

/-- A separator that is neither blank, digit nor letter is a mark. -/
theorem mark_of_separator {x : Char} (hx : x.toNat < 65) (hBlank : Text.isBlank x = false)
    (hDigit : x.isDigit = false) : Mark (· == x) where
  blank c hc := by
    rw [beq_eq_false_iff_ne]
    rintro rfl
    rw [hBlank] at hc
    cases hc
  digit c hc := by
    rw [beq_eq_false_iff_ne]
    rintro rfl
    rw [hDigit] at hc
    cases hc
  letter := by
    rw [beq_eq_false_iff_ne]
    rintro rfl
    exact absurd hx (by decide)
  half a m half h := by
    obtain ⟨ha, hm⟩ := Field.Meridiem.letters_of_ofLetters? h
    have hLetter : ∀ c l : Char, 65 ≤ l.toNat → c.toLower = l → (c == x) = false := by
      intro c l hl hc
      rw [beq_eq_false_iff_ne]
      rintro rfl
      rw [(toLower_eq_iff hx).mpr rfl] at hc
      rw [hc] at hx
      omega
    exact ⟨ha.elim (hLetter a 'a' (by decide)) (hLetter a 'p' (by decide)),
      hLetter m 'm' (by decide) hm⟩
  lower c := by
    rw [Bool.eq_iff_iff, beq_iff_eq, beq_iff_eq]
    exact toLower_eq_iff hx

theorem mark_colon : Mark (· == ':') :=
  mark_of_separator (by decide) (by decide) (by decide)

theorem mark_dash : Mark (· == '-') :=
  mark_of_separator (by decide) (by decide) (by decide)

theorem mark_slash : Mark (· == '/') :=
  mark_of_separator (by decide) (by decide) (by decide)

/-- The letter `n` in either case. -/
def isLetterN (c : Char) : Bool :=
  c.toLower == 'n'

theorem mark_letterN : Mark isLetterN := by
  have hEither : ∀ c, isLetterN c = true → c = 'n' ∨ c = 'N' := by
    intro c hc
    have hLower : c.toLower = 'n' := eq_of_beq hc
    rcases toLower_cases c with hSame | ⟨-, -, hShift⟩
    · exact Or.inl (hSame.symm.trans hLower)
    · rw [hLower] at hShift
      have hUpper : c.toNat = 'N'.toNat := by
        change 110 = c.toNat + 32 at hShift
        change c.toNat = 78
        omega
      exact Or.inr (Char.toNat_inj.mp hUpper)
  have hNone : ∀ q : Char → Bool, q 'n' = false → q 'N' = false →
      ∀ c, q c = true → isLetterN c = false := by
    intro q hSmall hBig c hc
    by_contra hMark
    rcases hEither c (eq_true_of_ne_false hMark) with rfl | rfl
    · exact absurd (hSmall.symm.trans hc) Bool.false_ne_true
    · exact absurd (hBig.symm.trans hc) Bool.false_ne_true
  exact {
    blank := hNone Text.isBlank (by decide) (by decide)
    digit := hNone Char.isDigit (by decide) (by decide)
    letter := by decide
    half := by
      intro a m half h
      obtain ⟨ha, hm⟩ := Field.Meridiem.letters_of_ofLetters? h
      unfold isLetterN
      rw [hm]
      rcases ha with ha | ha <;> rw [ha] <;> decide
    lower := by
      intro c
      unfold isLetterN
      rw [toLower_toLower] }

/-! ### Days and clock times -/

variable {p : Char → Bool}

/-- The words for days are a list. -/
theorem Typed.lower_mem_of_dayWord? {t : Text} {days : Int} (h : dayWord? t = some days) :
    Text.lower t ∈ ["today".toList, "yesterday".toList, "tomorrow".toList, "tmw".toList] := by
  dsimp only [dayWord?] at h
  simp only [List.mem_cons, List.not_mem_nil, or_false]
  split at h
  · rename_i hToday
    exact Or.inl hToday
  · split at h
    · rename_i hYesterday
      exact Or.inr (Or.inl hYesterday)
    · split at h
      · rename_i hTomorrow
        exact Or.inr (Or.inr hTomorrow)
      · cases h

/-- A mark that days have none of: no separator or sign of a day, and in no word for one. -/
structure PlainMark (p : Char → Bool) : Prop extends Mark p where
  /-- Not the separator of month and day -/
  slash : p '/' = false
  /-- Not the separator of a stored day, nor a sign -/
  dash : p '-' = false
  /-- Not the other sign -/
  plus : p '+' = false
  /-- In no word for a day -/
  words : ∀ word ∈ ["today".toList, "yesterday".toList, "tomorrow".toList, "tmw".toList],
    word.countP p = 0

theorem plainMark_colon : PlainMark (· == ':') :=
  { mark_colon with
    slash := by decide
    dash := by decide
    plus := by decide
    words := by decide +kernel }

theorem plainMark_letterN : PlainMark isLetterN :=
  { mark_letterN with
    slash := by decide
    dash := by decide
    plus := by decide
    words := by decide +kernel }

namespace PlainMark

variable (hp : PlainMark p)
include hp

theorem marksOf_sign : marksOf p '-' + marksOf p '+' = 0 := by
  rw [marksOf_of_not hp.dash, marksOf_of_not hp.plus]

theorem marksOf_separator (style : DayStyle) : marksOf p style.separator = 0 := by
  cases style with
  | iso => exact marksOf_of_not hp.dash
  | shortYear => exact marksOf_of_not hp.slash
  | fullYear => exact marksOf_of_not hp.slash

theorem countP_dated {year : Int} {t dated : Text} (h : Typed.withYear? year t = some dated) :
    dated.countP p = t.countP p := by
  have hYear := Field.countP_year_le hp.toMark year
  rw [hp.marksOf_sign] at hYear
  rw [Typed.countP_withYear? h, marksOf_of_not hp.slash]
  omega

theorem countP_instant {style : InstantStyle} {t : Text} {i : Instant}
    (h : style.read t = some i) : t.countP p = style.clock.colons * marksOf p ':' := by
  obtain ⟨sign, hSign, hCount⟩ := InstantStyle.countP_read hp.toMark h
  rw [hp.marksOf_sign] at hSign
  rw [hCount, hp.marksOf_separator]
  omega

theorem countP_day {style : DayStyle} {t : Text} {d : Date} (h : style.read t = some d) :
    t.countP p = 0 := by
  obtain ⟨sign, hSign, hCount⟩ := DayStyle.countP_read hp.toMark h
  rw [hp.marksOf_sign] at hSign
  rw [hCount, hp.marksOf_separator]
  omega

/-- Marks of an instant in one of some styles, the reference year written in or not. -/
theorem countP_orWithYear {year : Int} {styles : List InstantStyle} (colons : Nat)
    (hStyles : ∀ style ∈ styles, style.clock.colons = colons) {t : Text} {i : Instant}
    (h : Typed.orWithYear year (Instant.ofStyles? styles) t = some i) :
    t.countP p = colons * marksOf p ':' := by
  rcases Typed.cases_of_orWithYear h with hPlain | ⟨dated, hDated, hThen⟩
  · obtain ⟨style, hStyle, hRead⟩ := Instant.exists_of_ofStyles? hPlain
    rw [hp.countP_instant hRead, hStyles style hStyle]
  · obtain ⟨style, hStyle, hRead⟩ := Instant.exists_of_ofStyles? hThen
    rw [← hp.countP_dated hDated, hp.countP_instant hRead, hStyles style hStyle]

theorem countP_of_dayWord? {t : Text} {days : Int} (h : Typed.dayWord? t = some days) :
    t.countP p = 0 := by
  rw [← hp.countP_lower]
  exact hp.words _ (Typed.lower_mem_of_dayWord? h)

theorem countP_of_day? {now : Instant} {t : Text} {d : Date} (h : Typed.day? now t = some d) :
    t.countP p = 0 := by
  unfold Typed.day? at h
  split at h
  · rename_i days hWord
    exact hp.countP_of_dayWord? hWord
  · rcases Typed.cases_of_orWithYear h with hPlain | ⟨dated, hDated, hThen⟩
    · obtain ⟨style, -, hRead⟩ := Date.exists_of_ofStyles? hPlain
      exact hp.countP_day hRead
    · obtain ⟨style, -, hRead⟩ := Date.exists_of_ofStyles? hThen
      rw [← hp.countP_dated hDated, hp.countP_day hRead]

end PlainMark

/-! ### The hour at the end of a text -/

theorem Typed.countP_trailingMeridiem (hp : Mark p) (backwards : Text) :
    (trailingMeridiem backwards).2.countP p = backwards.countP p := by
  unfold trailingMeridiem
  split
  · split
    · rename_i half hHalf
      obtain ⟨ha, hm⟩ := hp.half _ _ _ hHalf
      rw [hp.countP_skipBlanks, countP_cons_eq, countP_cons_eq, marksOf_of_not ha,
        marksOf_of_not hm]
      rfl
    · rfl
  · rfl

/-- What stands before the hour has all the marks of the text. -/
theorem Typed.countP_splitHour? (hp : Mark p) {t before : Text} {hour : Nat}
    {half : Option Field.Meridiem} (h : splitHour? t = some (before, hour, half)) :
    before.countP p = t.countP p := by
  have hHalf := countP_trailingMeridiem hp t.reverse
  unfold splitHour? at h
  -- The text is read backwards: the half of the day, the digits of the hour, the blanks.
  generalize trailingMeridiem t.reverse = cut at h hHalf
  obtain ⟨half', backwards⟩ := cut
  dsimp only at h hHalf
  have hDigits : (backwards.drop (backwards.takeWhile Char.isDigit).length).countP p =
      backwards.countP p := by
    have hPrefix : backwards.takeWhile Char.isDigit <+: backwards := List.takeWhile_prefix _
    have hCount := congrArg (List.countP p) (List.prefix_iff_eq_append.mp hPrefix)
    rwa [List.countP_append, hp.countP_digits fun c hc => List.mem_takeWhile_imp hc,
      Nat.zero_add] at hCount
  split at h
  · split at h
    · rename_i c rest hBlanks
      split at h
      · simp only [Option.some.injEq, Prod.mk.injEq] at h
        obtain ⟨rfl, -, -⟩ := h
        rw [List.countP_reverse, hp.countP_skipBlanks, hDigits, hHalf, List.countP_reverse]
      · cases h
    · cases h
  · cases h

theorem PlainMark.countP_of_hour? (hp : PlainMark p) {now i : Instant} {t : Text}
    (h : Typed.hour? now t = some i) : t.countP p = 0 := by
  simp only [Typed.hour?, Option.bind_eq_bind, Option.bind_eq_some_iff, Prod.exists] at h
  obtain ⟨before, hour, half, hSplit, date, hDay, -⟩ := h
  rw [← Typed.countP_splitHour? hp.toMark hSplit, ← hp.countP_trim]
  exact hp.countP_of_day? hDay

/-! ### Stored pairs -/

/-- A stored instant has the dashes of its day, and perhaps a sign. -/
theorem Instant.countP_ofStored? (hp : Mark p) {t : Text} {i : Instant}
    (h : Instant.ofStored? t = some i) :
    2 * marksOf p '-' ≤ t.countP p ∧
      t.countP p ≤ 3 * marksOf p '-' + marksOf p '+' + 2 * marksOf p ':' := by
  rw [← hp.countP_trim t]
  rcases cases_of_ofStored? h with hStyles | ⟨d, hDay, -⟩
  · obtain ⟨style, hStyle, hRead⟩ := exists_of_ofStyles? hStyles
    obtain ⟨sign, hSign, hCount⟩ := InstantStyle.countP_read hp hRead
    rw [hCount]
    simp only [storedStyles, List.mem_cons, List.not_mem_nil, or_false] at hStyle
    rcases hStyle with rfl | rfl <;> simp only [DayStyle.separator, ClockStyle.colons] <;> omega
  · obtain ⟨sign, hSign, hCount⟩ := DayStyle.countP_read hp hDay
    rw [hCount]
    simp only [DayStyle.separator]
    omega

/-- A stored pair has the dashes of two days. -/
theorem Interval.countP_ofStored? (hp : Mark p) {t : Text} {i : Interval}
    (h : Interval.ofStored? t = some i) :
    4 * marksOf p '-' ≤ t.countP p ∧
      t.countP p ≤ 6 * marksOf p '-' + 2 * marksOf p '+' + 4 * marksOf p ':' + marksOf p '/' := by
  obtain ⟨before, after, rfl, hStart, hStop⟩ := exists_of_ofStored? h
  have hBefore := Instant.countP_ofStored? hp hStart
  have hAfter := Instant.countP_ofStored? hp hStop
  rw [hp.countP_trim] at hBefore hAfter
  rw [List.countP_append, countP_cons_eq]
  omega

/-! ### Instants and spans -/

theorem Typed.countP_pos_of_afterNow? {t rest : Text} (h : afterNow? t = some rest) :
    0 < t.countP isLetterN := by
  unfold afterNow? at h
  split at h
  · rename_i n o w rest'
    split at h
    · rename_i hNow
      have hLetter : n.toLower = 'n' := (List.cons.inj hNow).1
      rw [countP_cons_eq, marksOf, isLetterN, hLetter]
      exact Nat.succ_pos _
    · cases h
  · cases h

/-- An instant in a style has at most the dashes of a day and a sign. -/
theorem Typed.countP_dash_le {year : Int} {styles : List InstantStyle} {t : Text} {i : Instant}
    (h : orWithYear year (Instant.ofStyles? styles) t = some i) : t.countP (· == '-') ≤ 3 := by
  -- Two dashes of a stored day, and one of a negative year.
  have hRead : ∀ {style : InstantStyle} {t' : Text}, style.read t' = some i →
      t'.countP (· == '-') ≤ 3 := by
    intro style t' h'
    obtain ⟨sign, hSign, hCount⟩ := InstantStyle.countP_read mark_dash h'
    have hDash : marksOf (· == '-') '-' = 1 := rfl
    have hPlus : marksOf (· == '-') '+' = 0 := rfl
    have hColon : marksOf (· == '-') ':' = 0 := rfl
    have hSeparator : marksOf (· == '-') style.day.separator ≤ 1 := by
      unfold marksOf
      split <;> omega
    rw [hDash, hPlus] at hSign
    rw [hCount, hColon]
    omega
  rcases cases_of_orWithYear h with hPlain | ⟨dated, hDated, hThen⟩
  · obtain ⟨style, -, hStyle⟩ := Instant.exists_of_ofStyles? hPlain
    exact hRead hStyle
  · obtain ⟨style, -, hStyle⟩ := Instant.exists_of_ofStyles? hThen
    have hLe := hRead hStyle
    rw [countP_withYear? hDated] at hLe
    omega

/-- What a typed instant looks like: the second is written, or it starts with `now`. -/
theorem Instant.marks_of_ofTyped? {now i : Instant} {t : Text}
    (h : Instant.ofTyped? now t = some i) :
    (t.countP (· == ':') = 2 ∧ t.countP (· == '-') ≤ 3) ∨ 0 < t.countP isLetterN := by
  rw [← mark_colon.countP_trim t, ← mark_dash.countP_trim t, ← mark_letterN.countP_trim t]
  rcases cases_of_ofTyped? h with hSecond | ⟨rest, hNow, -⟩
  · have hColons := plainMark_colon.countP_orWithYear 2 (by decide) hSecond
    exact Or.inl ⟨hColons, Typed.countP_dash_le hSecond⟩
  · exact Or.inr (Typed.countP_pos_of_afterNow? hNow)

/-- What a typed span looks like: a stored pair, or a text with at most one colon. -/
theorem Interval.marks_of_ofTyped? {now : Instant} {t : Text} {i : Interval}
    (h : Interval.ofTyped? now t = some i) :
    t.countP isLetterN = 0 ∧ (4 ≤ t.countP (· == '-') ∨ t.countP (· == ':') ≤ 1) := by
  rw [← mark_colon.countP_trim t, ← mark_dash.countP_trim t, ← mark_letterN.countP_trim t]
  rcases cases_of_ofTyped? h with hStored | ⟨start, hMinute, -⟩ | ⟨start, hHour, -⟩ |
    ⟨date, hDay, -⟩
  · have hLetters := (Interval.countP_ofStored? mark_letterN hStored).2
    have hDashes := (Interval.countP_ofStored? mark_dash hStored).1
    exact ⟨Nat.le_zero.mp hLetters, Or.inl hDashes⟩
  · have hColons := plainMark_colon.countP_orWithYear 1 (by decide) hMinute
    have hLetters := plainMark_letterN.countP_orWithYear 1 (by decide) hMinute
    exact ⟨hLetters, Or.inr hColons.le⟩
  · have hColons := plainMark_colon.countP_of_hour? hHour
    exact ⟨plainMark_letterN.countP_of_hour? hHour, Or.inr (hColons.trans_le (Nat.zero_le 1))⟩
  · have hColons := plainMark_colon.countP_of_day? hDay
    exact ⟨plainMark_letterN.countP_of_day? hDay, Or.inr (hColons.trans_le (Nat.zero_le 1))⟩

/-- No text is both an instant and a span. -/
theorem Instant.ofTyped?_eq_none {now : Instant} {t : Text} {i : Interval}
    (h : Interval.ofTyped? now t = some i) : Instant.ofTyped? now t = none := by
  rcases hInstant : Instant.ofTyped? now t with _ | instant
  · rfl
  · have hSpan := Interval.marks_of_ofTyped? h
    have hMarks := Instant.marks_of_ofTyped? hInstant
    omega

end TableTalk
