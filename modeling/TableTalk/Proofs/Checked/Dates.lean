import TableTalk.Proofs.Checked.Expressions
import TableTalk.Proofs.Time.Hours

/-!
# Dates read by groups

Typed dates are read here off the groups of a match, with any engine for the expressions and with
numbers of the machine.  A quantity that is too great, or becomes so with its unit, is refused, and
every day that is moved to is refused outside the representable years.

The readings fault in no case and are those of `Duration.read`, `Instant.ofTyped?` and
`Interval.ofTyped?`.  Each proof has two directions (`Matcher.reading_eq_ok`): what has a reading
has a match, and every match has the groups that are read and leads to the same reading.

Expressions take the decimal digits of all scripts, but readings have those of ASCII only.  A text
with a digit of another script matches without being a date: its number is refused, or its day,
whichever form it is tried in (`Checked.readsPlain_instant`, `Checked.readsPlain_day`).
-/

namespace TableTalk

namespace Checked

open Regex (IsRun IsField)

variable {t : Text} {now : Instant}

/-! ### Numbers -/

/-- The number that digits of ASCII write, if it is below a limit. -/
def natural? (limit : ℕ) (t : Text) : Option ℕ :=
  if t ≠ [] ∧ t.all Char.isDigit ∧ Nat.ofDigitChars 10 t 0 < limit then
    some (Nat.ofDigitChars 10 t 0)
  else none

/-- One more than the greatest signed number of 64 bits. -/
def limit64 : ℕ := 9223372036854775808

/-- One more than the greatest number of 32 bits. -/
def limit32 : ℕ := 4294967296

/-- The product of two numbers, if it fits into 64 bits with a sign. -/
def product? (a b : ℕ) : Option ℕ :=
  if a * b < limit64 then some (a * b) else none

/-- A number of seconds as a length of time. -/
def seconds? (n : ℕ) : Option ℕ :=
  if n ≤ Duration.maxSeconds then some n else none

/-- The unit a text is the letter of. -/
def unit? : Text → Option Duration.TimeUnit
  | [c] => Duration.TimeUnit.ofLetter? c
  | _ => none

/-- A quantity with its unit is refused as soon as it is too great, which is no earlier than the
whole number of seconds is. -/
theorem seconds?_product? (n : ℕ) (u : Duration.TimeUnit) :
    ((if n < limit64 then some n else none).bind fun n => (product? n u.seconds).bind seconds?) =
      if n * u.seconds ≤ Duration.maxSeconds then some (n * u.seconds) else none := by
  have hUnit : 1 ≤ u.seconds := by cases u <;> decide
  have hLe : n ≤ n * u.seconds := Nat.le_mul_of_pos_right n hUnit
  have hMax : Duration.maxSeconds < limit64 := by decide
  by_cases hFits : n * u.seconds ≤ Duration.maxSeconds
  · rw [if_pos (by omega), Option.bind_some, product?, if_pos (by omega), Option.bind_some, seconds?]
  · rw [if_neg hFits]
    split
    · rw [Option.bind_some, product?]
      split
      · rw [Option.bind_some, seconds?, if_neg hFits]
      · rfl
    · rfl

/-! ### Durations -/

/-- A digit of ASCII is a decimal digit. -/
theorem isDecimal_of_isDigit (M : Matcher) {c : Char} (h : c.isDigit = true) :
    M.isDecimal c = true := by
  have hAscii := toNat_le_of_isDigit h
  rw [M.isDecimal_ascii c (by omega), h]

/-- The duration a text is. -/
def duration? (M : Matcher) (t : Text) : Checked (Option ℕ) :=
  M.reading (.duration M.isDecimal) (Text.trim t) fun caps => do
    match natural? limit64 (← groupText caps 1) with
    | none => return none
    | some quantity =>
        match unit? (← groupText caps 2) with
        | none => return none
        | some u => return (product? quantity u.seconds).bind seconds?

/-- A duration is a match, with its digits and its letter. -/
theorem exists_match_of_read (M : Matcher) {seconds : ℕ} (h : Duration.read t = some seconds) :
    ∃ caps, (Regex.duration M.isDecimal).Match (Text.trim t) caps := by
  obtain ⟨digits, u, hTrim, hSome, hDigits, -⟩ := Duration.read_eq_some_iff.mp h
  have hLetter : u.letter ∈ ['s', 'm', 'h', 'd'] := by cases u <;> decide
  have hRun : IsRun M.isDecimal digits :=
    ⟨hSome, fun c hc => isDecimal_of_isDigit M (hDigits c hc)⟩
  exact ⟨_, Regex.match_duration_iff.mpr ⟨digits, u.letter, hTrim, hRun, hLetter, rfl⟩⟩

theorem duration?_eq (M : Matcher) (t : Text) : duration? M t = .ok (Duration.read t) := by
  refine M.reading_eq_ok (fun seconds => exists_match_of_read M) fun caps hMatch => ?_
  obtain ⟨digits, c, hTrim, hRun, hc, rfl⟩ := Regex.match_duration_iff.mp hMatch
  obtain ⟨u, rfl⟩ : ∃ u : Duration.TimeUnit, c = u.letter := by
    simp only [List.mem_cons, List.not_mem_nil, or_false] at hc
    rcases hc with rfl | rfl | rfl | rfl
    exacts [⟨.second, rfl⟩, ⟨.minute, rfl⟩, ⟨.hour, rfl⟩, ⟨.day, rfl⟩]
  have hFirst : groupText [(1, digits), (2, [u.letter])] 1 = .ok digits := rfl
  have hSecond : groupText [(1, digits), (2, [u.letter])] 2 = .ok [u.letter] := rfl
  have hBack : (Text.trim t).reverse = u.letter :: digits.reverse := by
    rw [hTrim, List.reverse_append]
    rfl
  have hUnit : unit? [u.letter] = some u := Duration.TimeUnit.ofLetter?_letter u
  have hRead : Duration.read t = if digits.all Char.isDigit then
      (if Nat.ofDigitChars 10 digits 0 < limit64 then some (Nat.ofDigitChars 10 digits 0)
        else none).bind fun n => (product? n u.seconds).bind seconds?
      else none := by
    simp only [Duration.read, hBack, Duration.TimeUnit.ofLetter?_letter, List.all_reverse,
      List.reverse_reverse, ne_eq, List.reverse_eq_nil_iff, hRun.ne_nil, not_false_eq_true,
      true_and, seconds?_product?]
  simp only [hRead, hFirst, hSecond, hUnit, ok_bind, natural?, ne_eq, hRun.ne_nil,
    not_false_eq_true, true_and]
  by_cases hAll : digits.all Char.isDigit = true
  · by_cases hLess : Nat.ofDigitChars 10 digits 0 < limit64
    · simp only [hAll, hLess, and_self, if_true]
      rfl
    · simp only [hAll, hLess, and_false, if_true, if_false]
      rfl
  · simp only [hAll]
    rfl

/-! ### Moves -/

/-- The instant a text moves to. -/
def moved? (M : Matcher) (now : Instant) (t : Text) : Checked (Option Instant) :=
  M.reading (.move M.isDecimal) t fun caps => do
    match ← duration? M (← groupText caps 2) with
    | none => return none
    | some seconds =>
        if (← groupText caps 1) = ['-'] then return now.advance (-(seconds : ℤ))
        else return now.advance seconds

theorem exists_of_afterNow? {rest : Text} (h : Typed.afterNow? t = some rest) :
    ∃ word, Text.lower word = "now".toList ∧ t = word ++ rest := by
  unfold Typed.afterNow? at h
  split at h
  · rename_i n o w rest'
    split at h
    · rename_i hWord
      obtain rfl := Option.some.inj h
      exact ⟨[n, o, w], hWord, rfl⟩
    · cases h
  · cases h

theorem afterNow?_append {word : Text} (h : Text.lower word = "now".toList) (rest : Text) :
    Typed.afterNow? (word ++ rest) = some rest := by
  obtain ⟨n, o, w, rfl⟩ : ∃ n o w, word = [n, o, w] := by
    have hLength := congrArg List.length h
    exact List.length_eq_three.mp (by simpa [Text.lower] using hLength)
  exact if_pos h

/-- A text moves to an instant in a direction by a duration. -/
theorem exists_of_moved? {i : Instant} (h : Typed.moved? now t = some i) :
    ∃ gap direction rest seconds, Text.Blank gap ∧ t = gap ++ Typed.Direction.sign direction :: rest ∧
      Duration.read rest = some seconds := by
  have hGap : Text.Blank (t.takeWhile Text.isBlank) := fun c hc => List.mem_takeWhile_imp hc
  have hText : t = t.takeWhile Text.isBlank ++ Text.skipBlanks t :=
    List.takeWhile_append_dropWhile.symm
  unfold Typed.moved? at h
  split at h
  · rename_i rest hSkip
    obtain ⟨seconds, hRead, -⟩ := Option.bind_eq_some_iff.mp h
    rw [hSkip] at hText
    exact ⟨_, .later, rest, seconds, hGap, hText, hRead⟩
  · rename_i rest hSkip
    obtain ⟨seconds, hRead, -⟩ := Option.bind_eq_some_iff.mp h
    rw [hSkip] at hText
    exact ⟨_, .earlier, rest, seconds, hGap, hText, hRead⟩
  · cases h

theorem exists_match_of_moved? (M : Matcher) {i : Instant} (hTrim : Text.trimEnd t = t)
    (h : (Typed.afterNow? t).bind (Typed.moved? now) = some i) :
    ∃ caps, (Regex.move M.isDecimal).Match t caps := by
  obtain ⟨rest, hNow, hMove⟩ := Option.bind_eq_some_iff.mp h
  obtain ⟨word, hWord, rfl⟩ := exists_of_afterNow? hNow
  obtain ⟨gap, direction, rest, seconds, hGap, rfl, hRead⟩ := exists_of_moved? hMove
  obtain ⟨digits, u, hRest, hSome, hDigits, -⟩ := Duration.read_eq_some_iff.mp hRead
  obtain ⟨gap', tail, hGap', hTail, hParts⟩ := Text.exists_trim rest
  have hText : word ++ (gap ++ direction.sign :: rest) =
      word ++ (gap ++ direction.sign :: (gap' ++ Text.trim rest)) ++ tail := by
    conv_lhs => rw [hParts]
    simp
  rw [hText] at hTrim
  obtain rfl := Text.eq_nil_of_trimEnd_append hTail hTrim
  have hLetter : Regex.isUnitLetter u.letter = true := by cases u <;> decide
  have hIsMove : Regex.IsMove M.isDecimal direction (Text.trim rest)
      (word ++ (gap ++ direction.sign :: rest)) :=
    ⟨⟨digits, u.letter, hRest,
      ⟨hSome, fun c hc => isDecimal_of_isDigit M (hDigits c hc)⟩, hLetter⟩,
      word, gap, gap', hWord, hGap, hGap', by simpa using hText⟩
  exact ⟨_, Regex.match_move_iff.mpr ⟨direction, _, hIsMove, rfl⟩⟩

theorem moved?_eq (M : Matcher) (now : Instant) (hTrim : Text.trimEnd t = t) :
    moved? M now t = .ok ((Typed.afterNow? t).bind (Typed.moved? now)) := by
  refine M.reading_eq_ok (fun i => exists_match_of_moved? M hTrim) fun caps hMatch => ?_
  obtain ⟨direction, q, ⟨-, word, gap, gap', hWord, hGap, hGap', rfl⟩, rfl⟩ :=
    Regex.match_move_iff.mp hMatch
  have hFirst : groupText [(1, [direction.sign]), (2, q)] 1 = .ok [direction.sign] := rfl
  have hSecond : groupText [(1, [direction.sign]), (2, q)] 2 = .ok q := rfl
  have hQuantity : Duration.read (gap' ++ q) = Duration.read q := by
    simpa using Duration.read_surrounded hGap' (fun _ hc => absurd hc List.not_mem_nil) q
  rw [afterNow?_append hWord, Option.bind_some, Typed.moved?_sign hGap, hQuantity]
  simp only [hFirst, hSecond, duration?_eq, ok_bind]
  cases Duration.read q with
  | none => rfl
  | some seconds =>
      cases direction with
      | later => rfl
      | earlier => rfl

/-! ### Digits of other scripts -/

/-- A character beyond ASCII that is not blank. -/
def isForeign (c : Char) : Bool :=
  127 < c.toNat && !Text.isBlank c

theorem isForeign_of_isDecimal (M : Matcher) {c : Char} (h : M.isDecimal c = true)
    (hDigit : c.isDigit = false) : isForeign c = true := by
  have hBlank := M.isBlank_of_isDecimal c h
  have hNot : ¬ c.toNat ≤ 127 := by
    intro hAscii
    rw [M.isDecimal_ascii c hAscii, hDigit] at h
    cases h
  simp [isForeign, hBlank]
  omega

theorem isForeign_eq_false_of_le {c : Char} (h : c.toNat ≤ 127) : isForeign c = false := by
  have hNot : ¬ 127 < c.toNat := by omega
  simp [isForeign, hNot]

theorem isForeign_toLower (c : Char) : isForeign c.toLower = isForeign c := by
  rcases toLower_cases c with hSame | ⟨-, hHigh, hShift⟩
  · rw [hSame]
  · rw [isForeign_eq_false_of_le (by omega), isForeign_eq_false_of_le (by omega)]

/-- Nothing but ASCII and blanks is in a date. -/
theorem plainMark_foreign : PlainMark isForeign where
  blank c hc := by simp [isForeign, hc]
  digit c hc := isForeign_eq_false_of_le ((toNat_le_of_isDigit hc).trans (by decide))
  letter := isForeign_eq_false_of_le (by decide)
  half a m half h := by
    obtain ⟨ha, hm⟩ := Field.Meridiem.letters_of_ofLetters? h
    rw [← isForeign_toLower a, ← isForeign_toLower m, hm]
    refine ⟨?_, isForeign_eq_false_of_le (by decide)⟩
    rcases ha with ha | ha
    · rw [ha]
      exact isForeign_eq_false_of_le (by decide)
    · rw [ha]
      exact isForeign_eq_false_of_le (by decide)
  lower := isForeign_toLower
  slash := isForeign_eq_false_of_le (by decide)
  dash := isForeign_eq_false_of_le (by decide)
  plus := isForeign_eq_false_of_le (by decide)
  words := by decide +kernel

/-- Texts with a character of another script are not read. -/
def ReadsPlain {α : Type} (read : Text → Option α) : Prop :=
  ∀ {t x}, read t = some x → t.countP isForeign = 0

theorem readsPlain_instant (styles : List InstantStyle) :
    ReadsPlain (Instant.ofStyles? styles) := by
  intro t i h
  obtain ⟨style, -, hRead⟩ := Instant.exists_of_ofStyles? h
  have hColon : marksOf isForeign ':' = 0 :=
    marksOf_of_not (isForeign_eq_false_of_le (by decide))
  rw [plainMark_foreign.countP_instant hRead, hColon, Nat.mul_zero]

theorem readsPlain_day (styles : List DayStyle) : ReadsPlain (Date.ofStyles? styles) := by
  intro t d h
  obtain ⟨style, -, hRead⟩ := Date.exists_of_ofStyles? h
  exact plainMark_foreign.countP_day hRead

theorem ReadsPlain.eq_none {α : Type} {read : Text → Option α} (h : ReadsPlain read)
    (ht : 0 < t.countP isForeign) : read t = none :=
  Option.eq_none_iff_forall_ne_some.mpr fun _ hRead => absurd (h hRead) ht.ne'

/-- A field of decimal digits has digits of ASCII alone or a character of another script. -/
theorem isShort_or_foreign {M : Matcher} {digits : Text} (h : IsField M.isDecimal digits) :
    Field.IsShort digits ∨ 0 < digits.countP isForeign := by
  by_cases hDigits : ∀ c ∈ digits, c.isDigit = true
  · exact Or.inl ⟨h.length, hDigits⟩
  · push Not at hDigits
    obtain ⟨c, hc, hNot⟩ := hDigits
    have hForeign := isForeign_of_isDecimal M (h.forall_mem c hc) (eq_false_of_ne_true hNot)
    exact Or.inr (List.countP_pos_iff.mpr ⟨c, hc, hForeign⟩)

theorem isField_of_isShort (M : Matcher) {digits : Text} (h : Field.IsShort digits) :
    IsField M.isDecimal digits :=
  ⟨h.length, fun c hc => isDecimal_of_isDigit M (h.isDigit c hc)⟩

/-! ### The reference year -/

/-- Read a text as it is and, failing that, with the reference year written in. -/
def orWithYear {α : Type} (M : Matcher) (year : ℤ) (read : Text → Option α) (t : Text) :
    Checked (Option α) :=
  match read t with
  | some x => return some x
  | none =>
      M.reading (.monthDay M.isDecimal) t fun caps => do
        let month ← groupText caps 1
        let day ← groupText caps 2
        let rest := (caps.lookup 3).getD []
        return read (month ++ '/' :: day ++ '/' :: Field.year year ++ rest)

theorem withYear?_append {year : ℤ} {month day rest : Text} (hMonth : Field.IsShort month)
    (hDay : Field.IsShort day) (hRest : Regex.LineNext rest) :
    Typed.withYear? year (month ++ '/' :: (day ++ rest)) =
      some (month ++ '/' :: day ++ '/' :: Field.year year ++ rest) := by
  have hNext : Text.BlankNext rest := by
    rcases hRest with rfl | ⟨c, line, rfl, hc, -⟩
    · exact Text.BlankNext.nil
    · intro x hx
      obtain rfl : c = x := Option.some.inj hx
      exact hc
  have hFirst := hMonth.dayOrMonth?_append (.cons (c := '/') (by decide) (day ++ rest))
  have hSecond := hDay.dayOrMonth?_append (.of_blankNext hNext)
  simp only [Typed.withYear?, hFirst, hSecond, Field.char?, if_true, Option.bind_eq_bind,
    Option.bind_some, Option.pure_def]
  rcases hRest with rfl | ⟨c, line, rfl, hc, hLine⟩
  · rfl
  · simp [hc, hLine]

theorem isShort_of_dayOrMonth? {digits rest : Text}
    (h : Typed.dayOrMonth? t = some (digits, rest)) : Field.IsShort digits := by
  unfold Typed.dayOrMonth? at h
  split at h
  · rename_i a b rest
    split at h
    · rename_i ha
      split at h
      · rename_i hb
        obtain ⟨rfl, -⟩ := Prod.mk.inj (Option.some.inj h)
        exact ⟨Or.inr rfl, by simp [ha, hb]⟩
      · obtain ⟨rfl, -⟩ := Prod.mk.inj (Option.some.inj h)
        exact ⟨Or.inl rfl, by simp [ha]⟩
    · cases h
  · rename_i a
    split at h
    · rename_i ha
      obtain ⟨rfl, -⟩ := Prod.mk.inj (Option.some.inj h)
      exact ⟨Or.inl rfl, by simp [ha]⟩
    · cases h
  · cases h

/-- A text that the year is written into opens with a month and a day. -/
theorem exists_of_withYear? {year : ℤ} {dated : Text} (h : Typed.withYear? year t = some dated) :
    ∃ month day rest, t = month ++ '/' :: (day ++ rest) ∧ Field.IsShort month ∧
      Field.IsShort day ∧ Regex.LineNext rest := by
  simp only [Typed.withYear?, Option.bind_eq_bind, Option.bind_eq_some_iff, Prod.exists] at h
  obtain ⟨month, t₁, hMonth, t₂, hSlash, day, rest, hDay, hRest⟩ := h
  refine ⟨month, day, rest, ?_, isShort_of_dayOrMonth? hMonth, isShort_of_dayOrMonth? hDay, ?_⟩
  · rw [Typed.eq_append_of_dayOrMonth? hMonth, ← Typed.eq_append_of_dayOrMonth? hDay]
    cases t₁ with
    | nil => cases hSlash
    | cons c t₁ =>
        rw [Field.char?] at hSlash
        split at hSlash
        · rename_i hc
          rw [hc, Option.some.inj hSlash]
        · cases hSlash
  · split at hRest
    · exact Or.inl rfl
    · rename_i c line
      split at hRest
      · rename_i hLine
        simp only [Bool.and_eq_true, Bool.not_eq_true', List.contains_eq_mem,
          decide_eq_false_iff_not] at hLine
        exact Or.inr ⟨c, line, rfl, hLine.1, hLine.2⟩
      · cases hRest

theorem exists_match_of_withYear? (M : Matcher) {year : ℤ} {dated : Text}
    (h : Typed.withYear? year t = some dated) :
    ∃ caps, (Regex.monthDay M.isDecimal).Match t caps := by
  obtain ⟨month, day, rest, hText, hMonth, hDay, hRest⟩ := exists_of_withYear? h
  exact ⟨_, Regex.match_monthDay_iff.mpr ⟨month, day, rest, hText, isField_of_isShort M hMonth,
    isField_of_isShort M hDay, hRest, rfl⟩⟩

/-- A month and a day of any digits are read with the year between them and the rest. -/
theorem read_withYear {α : Type} {read : Text → Option α} (hPlain : ReadsPlain read) {M : Matcher}
    (year : ℤ) {month day rest : Text} (hMonth : IsField M.isDecimal month)
    (hDay : IsField M.isDecimal day) (hRest : Regex.LineNext rest) :
    read (month ++ '/' :: day ++ '/' :: Field.year year ++ rest) =
      (Typed.withYear? year (month ++ '/' :: (day ++ rest))).bind read := by
  by_cases hForeign : 0 < (month ++ '/' :: (day ++ rest)).countP isForeign
  · have hDated : 0 < (month ++ '/' :: day ++ '/' :: Field.year year ++ rest).countP
        isForeign := by
      simp only [List.countP_append, countP_cons_eq] at hForeign ⊢
      omega
    rw [hPlain.eq_none hDated]
    symm
    refine Option.eq_none_iff_forall_ne_some.mpr fun x hx => ?_
    obtain ⟨dated, hWith, hThen⟩ := Option.bind_eq_some_iff.mp hx
    have hCount := hPlain hThen
    rw [Typed.countP_withYear? hWith] at hCount
    omega
  · simp only [List.countP_append, countP_cons_eq] at hForeign
    have hMonth' := (isShort_or_foreign hMonth).resolve_right (by omega)
    have hDay' := (isShort_or_foreign hDay).resolve_right (by omega)
    rw [withYear?_append hMonth' hDay' hRest]
    rfl

theorem orWithYear_eq {α : Type} {read : Text → Option α} (hPlain : ReadsPlain read)
    (M : Matcher) (year : ℤ) (t : Text) :
    orWithYear M year read t = .ok (Typed.orWithYear year read t) := by
  unfold orWithYear Typed.orWithYear
  cases hRead : read t with
  | some x => rfl
  | none =>
      rw [Option.orElse_none]
      refine M.reading_eq_ok (fun x hx => ?_) fun caps hMatch => ?_
      · obtain ⟨dated, hDated, -⟩ := Option.bind_eq_some_iff.mp hx
        exact exists_match_of_withYear? M hDated
      · obtain ⟨month, day, rest, rfl, hMonth, hDay, hRest, rfl⟩ :=
          Regex.match_monthDay_iff.mp hMatch
        -- What the groups are, whatever follows the day.
        set caps : Captures := (1, month) :: (2, day) :: if rest = [] then [] else [(3, rest)]
          with hCaps
        have hFirst : groupText caps 1 = .ok month := rfl
        have hSecond : groupText caps 2 = .ok day := rfl
        have hThird : (caps.lookup 3).getD [] = rest := by
          rw [hCaps]
          split
          · rename_i hNone
            rw [hNone]
            rfl
          · rfl
        simp only [hFirst, hSecond, hThird, ok_bind]
        exact congrArg Except.ok (read_withYear hPlain year hMonth hDay hRest)

/-! ### Days and hours -/

/-- The day a text names. -/
def day? (M : Matcher) (now : Instant) (t : Text) : Checked (Option Date) :=
  match Typed.dayWord? t with
  | some days => return now.date.shift days
  | none => orWithYear M now.date.year (Date.ofStyles? Typed.dayStyles) t

theorem day?_eq (M : Matcher) (now : Instant) (t : Text) :
    day? M now t = .ok (Typed.day? now t) := by
  unfold day? Typed.day?
  cases Typed.dayWord? t with
  | some days => rfl
  | none => exact orWithYear_eq (readsPlain_day _) M _ t

/-- The hour of the day, on a twelve-hour clock if the letters of a half of the day are given. -/
def hourOfDay? (letters : Option Text) (hour : ℕ) : Option ℕ :=
  match letters with
  | none => some hour
  | some letters =>
      if 1 ≤ hour ∧ hour ≤ 12 then
        some (if Text.lower letters = "am".toList then hour % 12 else hour % 12 + 12)
      else none

/-- The first instant of the hour a text names. -/
def hour? (M : Matcher) (now : Instant) (t : Text) : Checked (Option Instant) :=
  M.reading (.hour M.isDecimal) t fun caps => do
    match ← day? M now (Text.trim (← groupText caps 1)) with
    | none => return none
    | some date =>
        match natural? limit32 (← groupText caps 2) with
        | none => return none
        | some hour =>
            return (hourOfDay? (caps.lookup 3) hour).bind fun hour =>
              Instant.ofClock? date hour 0 0

theorem natural?_of_isShort {digits : Text} (h : Field.IsShort digits) :
    natural? limit32 digits = some (Nat.ofDigitChars 10 digits 0) := by
  have hDigit : ∀ c ∈ digits, c.toNat - '0'.toNat ≤ 57 - '0'.toNat := fun c hc =>
    Nat.sub_le_sub_right (toNat_le_of_isDigit (h.isDigit c hc)) _
  have hLimit : Nat.ofDigitChars 10 digits 0 < limit32 := by
    have hZero : '0'.toNat = 48 := rfl
    unfold limit32
    rcases h.length with hOne | hTwo
    · obtain ⟨a, rfl⟩ := List.length_eq_one_iff.mp hOne
      have ha := hDigit a List.mem_cons_self
      simp only [Nat.ofDigitChars_cons, Nat.ofDigitChars_nil]
      omega
    · obtain ⟨a, b, rfl⟩ := List.length_eq_two.mp hTwo
      have ha := hDigit a List.mem_cons_self
      have hb := hDigit b (List.mem_cons_of_mem a List.mem_cons_self)
      simp only [Nat.ofDigitChars_cons, Nat.ofDigitChars_nil]
      omega
  obtain ⟨c, more, -, hDigits⟩ := h.exists_cons
  have hSome : digits ≠ [] := by
    rw [hDigits]
    exact List.cons_ne_nil c more
  exact if_pos ⟨hSome, List.all_eq_true.mpr h.isDigit, hLimit⟩

theorem natural?_of_foreign {digits : Text} (h : 0 < digits.countP isForeign) (limit : ℕ) :
    natural? limit digits = none := by
  refine if_neg fun ⟨_, hAll, _⟩ => h.ne' ?_
  exact plainMark_foreign.countP_digits (List.all_eq_true.mp hAll)

/-- The letters of a half of the day make the hour one of that half. -/
theorem exists_half {letters : Text}
    (h : Text.lower letters = "am".toList ∨ Text.lower letters = "pm".toList) :
    ∃ a m half, letters = [a, m] ∧ Field.Meridiem.ofLetters? a m = some half ∧
      ∀ hour, hourOfDay? (some letters) hour = Typed.hourOfDay? (some half) hour := by
  obtain ⟨a, m, rfl⟩ : ∃ a m, letters = [a, m] := by
    have hLength : letters.length = 2 := by
      rcases h with h | h
      · simpa [Text.lower] using congrArg List.length h
      · simpa [Text.lower] using congrArg List.length h
    exact List.length_eq_two.mp hLength
  rcases h with h | h
  · have ha : a.toLower = 'a' := (List.cons.inj h).1
    have hm : m.toLower = 'm' := (List.cons.inj (List.cons.inj h).2).1
    refine ⟨a, m, .am, rfl, by simp [Field.Meridiem.ofLetters?, ha, hm], fun hour => ?_⟩
    rw [hourOfDay?, if_pos h]
    rfl
  · have ha : a.toLower = 'p' := (List.cons.inj h).1
    have hm : m.toLower = 'm' := (List.cons.inj (List.cons.inj h).2).1
    have hNot : Text.lower [a, m] ≠ "am".toList := by
      rw [h]
      decide
    refine ⟨a, m, .pm, rfl, by simp [Field.Meridiem.ofLetters?, ha, hm], fun hour => ?_⟩
    rw [hourOfDay?, if_neg hNot]
    rfl

/-- What stands before an hour does not open a trimmed text with blanks alone. -/
theorem trimEnd_ne_nil {front rest : Text} (hFront : front ≠ [])
    (hTrim : Text.trim (front ++ rest) = front ++ rest) : Text.trimEnd front ≠ [] := by
  intro hNone
  obtain ⟨gap, hGap, hText⟩ := Text.exists_trimEnd front
  obtain ⟨c, front, rfl⟩ := List.exists_cons_of_ne_nil hFront
  rw [hNone, List.nil_append] at hText
  have hc : Text.isBlank c = true := hGap c (hText ▸ List.mem_cons_self)
  rcases Text.trim_cases (c :: front ++ rest) with hEmpty | ⟨x, more, hx, hCons⟩
  · rw [hEmpty] at hTrim
    cases hTrim
  · rw [hCons] at hTrim
    rw [(List.cons.inj hTrim).1, hc] at hx
    cases hx

/-- No clock has an hour that the numbering of hours leaves out. -/
theorem ofClock?_hourOfDay? (date : Date) (hour : ℕ) :
    ((some hour).bind fun hour => Instant.ofClock? date hour 0 0) =
      (Typed.hourOfDay? none hour).bind fun hour => Instant.ofClock? date hour 0 0 := by
  change _ = (if hour < 24 then some hour else none).bind _
  by_cases hHour : hour < 24
  · rw [if_pos hHour]
  · rw [if_neg hHour]
    simp [Instant.ofClock?, hHour]

theorem exists_match_of_hourTail {half : Option Field.Meridiem} {tail : Text}
    (h : Typed.HourTail half tail) : ∃ back, Regex.halfOfDay.Match tail back := by
  cases h with
  | plain => exact ⟨[], Regex.match_halfOfDay_iff.mpr (Or.inl ⟨by simp [Text.Blank], rfl⟩)⟩
  | half hGap hLetters =>
      rename_i gap a m half
      obtain ⟨ha, hm⟩ := Field.Meridiem.letters_of_ofLetters? hLetters
      have hWord : Text.lower [a, m] = "am".toList ∨ Text.lower [a, m] = "pm".toList := by
        simp only [Text.lower, List.map_cons, List.map_nil, hm]
        rcases ha with ha | ha
        · exact Or.inl (by rw [ha]; rfl)
        · exact Or.inr (by rw [ha]; rfl)
      exact ⟨_, Regex.match_halfOfDay_iff.mpr (Or.inr ⟨gap, [a, m], rfl, hGap, hWord, rfl⟩)⟩

/-- The third group says which half of the day an hour is in, if the text does. -/
theorem exists_hourTail_of_match {tail : Text} {back : Captures}
    (h : Regex.halfOfDay.Match tail back) (hEnd : Text.Blank tail → tail = []) :
    ∃ half, Typed.HourTail half tail ∧ ∀ date hour,
      ((hourOfDay? (back.lookup 3) hour).bind fun hour => Instant.ofClock? date hour 0 0) =
        (Typed.hourOfDay? half hour).bind fun hour => Instant.ofClock? date hour 0 0 := by
  rcases Regex.match_halfOfDay_iff.mp h with ⟨hBlank, rfl⟩ | ⟨gap, letters, rfl, hGap, hWord, rfl⟩
  · rw [hEnd hBlank]
    exact ⟨none, .plain, ofClock?_hourOfDay?⟩
  · obtain ⟨a, m, half, rfl, hLetters, hHour⟩ := exists_half hWord
    refine ⟨some half, .half hGap hLetters, fun date hour => ?_⟩
    rw [← hHour]
    rfl

theorem exists_match_of_hour? (M : Matcher) {i : Instant} (h : Typed.hour? now t = some i) :
    ∃ caps, (Regex.hour M.isDecimal).Match t caps := by
  simp only [Typed.hour?, Option.bind_eq_bind, Option.bind_eq_some_iff, Prod.exists] at h
  obtain ⟨before, hour, half, hSplit, -⟩ := h
  obtain ⟨digits, hIs, -⟩ := Typed.exists_isHour hSplit
  obtain ⟨gap, tail, hGap, hSome, hTail, hText⟩ := hIs.exists_parts
  obtain ⟨back, hBack⟩ := exists_match_of_hourTail hTail
  have hBefore : ∀ c ∈ before, (c != '\n') = true := by
    intro c hc
    rw [bne_iff_ne]
    rintro rfl
    exact hIs.not_mem hc
  exact ⟨_, Regex.match_hour_iff.mpr ⟨before, gap, digits, tail, back, hText,
    ⟨hIs.ne_nil, hBefore⟩, ⟨hSome, hGap⟩, isField_of_isShort M hIs.short, hBack, rfl⟩⟩

/-- A match with digits of ASCII is an hour.  The blanks that its first group ends with belong to
those before the digits. -/
theorem isHour_of_match {front gap digits tail : Text} {half : Option Field.Meridiem}
    (hTrim : Text.trim (front ++ (gap ++ (digits ++ tail))) = front ++ (gap ++ (digits ++ tail)))
    (hFront : IsRun (fun c => c != '\n') front) (hGap : IsRun Text.isBlank gap)
    (hShort : Field.IsShort digits) (hHalf : Typed.HourTail half tail) :
    Typed.IsHour (Text.trimEnd front) digits half (front ++ (gap ++ (digits ++ tail))) := by
  obtain ⟨blanks, hBlanks, hText⟩ := Text.exists_trimEnd front
  exact
    { ne_nil := trimEnd_ne_nil hFront.ne_nil hTrim
      trimEnd_eq := Text.trimEnd_trimEnd front
      not_mem := fun hMem => by
        have hLine := hFront.forall_mem '\n' (hText ▸ List.mem_append_left _ hMem)
        simp at hLine
      short := hShort
      exists_parts := ⟨blanks ++ gap, tail, hBlanks.append hGap.forall_mem,
        List.append_ne_nil_of_right_ne_nil _ hGap.ne_nil, hHalf, by
          conv_lhs => rw [hText]
          simp⟩ }

theorem hour?_eq (M : Matcher) (now : Instant) (hTrim : Text.trim t = t) :
    hour? M now t = .ok (Typed.hour? now t) := by
  refine M.reading_eq_ok (fun i => exists_match_of_hour? M) fun caps hMatch => ?_
  obtain ⟨front, gap, digits, tail, back, rfl, hFront, hGap, hDigits, hTail, rfl⟩ :=
    Regex.match_hour_iff.mp hMatch
  have hFirst : groupText ((1, front) :: (2, digits) :: back) 1 = .ok front := rfl
  have hSecond : groupText ((1, front) :: (2, digits) :: back) 2 = .ok digits := rfl
  have hThird : ((1, front) :: (2, digits) :: back : Captures).lookup 3 = back.lookup 3 := rfl
  simp only [hFirst, hSecond, hThird, day?_eq, ok_bind]
  rcases isShort_or_foreign hDigits with hShort | hForeign
  · have hEnd : Text.Blank tail → tail = [] := fun hBlank =>
      Text.eq_nil_of_trimEnd_append (t := front ++ (gap ++ digits)) hBlank
        (by simpa using Text.trimEnd_of_trim hTrim)
    obtain ⟨half, hHalf, hHour⟩ := exists_hourTail_of_match hTail hEnd
    have hIs := isHour_of_match hTrim hFront hGap hShort hHalf
    have hSame : Text.trim front = Text.trim (Text.trimEnd front) := by
      obtain ⟨blanks, hBlanks, hText⟩ := Text.exists_trimEnd front
      conv_lhs => rw [hText]
      exact Text.trim_append_blank hBlanks
    rw [hSame, natural?_of_isShort hShort]
    simp only [Typed.hour?, Typed.splitHour?_of_isHour hIs, Option.bind_eq_bind,
      Option.bind_some]
    cases Typed.day? now (Text.trim (Text.trimEnd front)) with
    | none => rfl
    | some date => exact congrArg Except.ok (hHour date _)
  · have hNone : Typed.hour? now (front ++ (gap ++ (digits ++ tail))) = none := by
      refine Option.eq_none_iff_forall_ne_some.mpr fun i hi => ?_
      have hCount := plainMark_foreign.countP_of_hour? hi
      simp only [List.countP_append] at hCount
      omega
    rw [natural?_of_foreign hForeign, hNone]
    cases Typed.day? now (Text.trim front) with
    | none => rfl
    | some date => rfl

/-! ### Instants and spans -/

/-- The instant a typed text names. -/
def instant? (M : Matcher) (now : Instant) (t : Text) : Checked (Option Instant) := do
  let t := Text.trim t
  match ← orWithYear M now.date.year (Instant.ofStyles? Typed.secondStyles) t with
  | some i => return some i
  | none => if Text.sameLetters t "now".toList then return some now else moved? M now t

theorem instant?_eq (M : Matcher) (now : Instant) (t : Text) :
    instant? M now t = .ok (Instant.ofTyped? now t) := by
  have hTrim : Text.trimEnd (Text.trim t) = Text.trim t :=
    Text.trimEnd_of_trim (Text.trim_trim t)
  simp only [instant?, Instant.ofTyped?, orWithYear_eq (readsPlain_instant _), moved?_eq M now hTrim,
    ok_bind]
  cases Typed.orWithYear now.date.year (Instant.ofStyles? Typed.secondStyles) (Text.trim t) with
  | some i => rfl
  | none =>
      dsimp only
      by_cases hNow : Text.sameLetters (Text.trim t) "now".toList = true
      · have hWord : Text.lower (Text.trim t) = "now".toList := eq_of_beq hNow
        have hAfter := afterNow?_append hWord []
        rw [List.append_nil] at hAfter
        rw [if_pos hNow, hAfter]
        rfl
      · rw [if_neg hNow]
        cases hAfter : Typed.afterNow? (Text.trim t) with
        | none => rfl
        | some rest =>
            cases rest with
            | nil =>
                obtain ⟨word, hWord, hText⟩ := exists_of_afterNow? hAfter
                rw [List.append_nil] at hText
                rw [hText] at hNow
                exact absurd (beq_iff_eq.mpr hWord) hNow
            | cons c rest => rfl

/-- The span a typed text names. -/
def interval? (M : Matcher) (now : Instant) (t : Text) : Checked (Option Interval) := do
  let t := Text.trim t
  match Interval.ofStored? t with
  | some i => return some i
  | none =>
      match ← orWithYear M now.date.year (Instant.ofStyles? Typed.minuteStyles) t with
      | some start => return Interval.startingAt start 60
      | none =>
          match ← hour? M now t with
          | some start => return Interval.startingAt start 3600
          | none =>
              match ← day? M now t with
              | some date => return Interval.startingAt (Instant.midnight date) 86400
              | none => return none

theorem interval?_eq (M : Matcher) (now : Instant) (t : Text) :
    interval? M now t = .ok (Interval.ofTyped? now t) := by
  simp only [interval?, Interval.ofTyped?, orWithYear_eq (readsPlain_instant _),
    hour?_eq M now (Text.trim_trim t), day?_eq, ok_bind]
  cases Interval.ofStored? (Text.trim t) with
  | some i => rfl
  | none =>
      cases Typed.orWithYear now.date.year (Instant.ofStyles? Typed.minuteStyles)
        (Text.trim t) with
      | some start => rfl
      | none =>
          cases Typed.hour? now (Text.trim t) with
          | some start => rfl
          | none =>
              cases Typed.day? now (Text.trim t) with
              | some date => rfl
              | none => rfl

end Checked

end TableTalk
