import TableTalk.Proofs.Text.Words
import TableTalk.Proofs.Time.Forms
import TableTalk.Proofs.Time.StoredOrder

/-!
# Stored texts are read back

Writing an instant and reading the text gives the instant, without the fraction that the
text does not show (`Instant.ofStored?_stored`).  This holds in every representable year,
also in those that are written with a sign, and for leap seconds.  A span of whole
seconds is read back as it was (`Interval.ofStored?_stored`).

Each field is read off the front of a text that goes on after it, so that the readers are
composed as the writers are.  Two facts about whole texts are needed besides: no stored
instant has a blank, so that trimming leaves it as it is, and none has a slash, so that a
stored span is cut where it was joined.
-/

namespace TableTalk

/-! ### Blanks -/

namespace Text

theorem isBlank_eq_false_of_isDigit {c : Char} (h : c.isDigit = true) : isBlank c = false := by
  obtain ⟨hLow, hHigh⟩ : 48 ≤ c.toNat ∧ c.toNat ≤ 57 := by
    simpa [Char.isDigit, UInt32.le_iff_toNat_le] using h
  simp only [isBlank, Bool.or_eq_false_iff, Bool.and_eq_false_iff, decide_eq_false_iff_not,
    beq_eq_false_iff_ne]
  omega

end Text

/-! ### Fields -/

namespace Field

variable {n : Nat} {rest : Text}

theorem isDigit_digitChar (n : Nat) : (Nat.digitChar (n % 10)).isDigit = true := by
  rw [Nat.isDigit_digitChar]
  exact decide_eq_true (Nat.mod_lt n (by decide))

/-- Digits that fill the width are read as a whole, whatever follows. -/
theorem digitsUpTo?_append (digits rest : Text) (hDigits : ∀ c ∈ digits, c.isDigit = true)
    (hSome : digits ≠ []) :
    digitsUpTo? digits.length (digits ++ rest) =
      some (Nat.ofDigitChars 10 digits 0, rest) := by
  unfold digitsUpTo?
  rw [List.take_left, List.takeWhile_eq_self_iff.mpr hDigits]
  simp [hSome]

/-- No digit comes next. -/
def DigitsEnd (rest : Text) : Prop :=
  ∀ c ∈ rest.head?, c.isDigit = false

theorem DigitsEnd.cons {c : Char} (hc : c.isDigit = false) (rest : Text) :
    DigitsEnd (c :: rest) := by
  intro x hx
  obtain rfl : c = x := Option.some.inj hx
  exact hc

theorem DigitsEnd.takeWhile_append {digits : Text} (h : DigitsEnd rest)
    (hDigits : ∀ c ∈ digits, c.isDigit = true) :
    (digits ++ rest).takeWhile Char.isDigit = digits := by
  rw [List.takeWhile_append_of_pos hDigits]
  rcases rest with _ | ⟨c, rest⟩
  · simp
  · simp [h c rfl]

/-- Any number of digits is read up to the next other character. -/
theorem digits?_append {digits : Text} (hDigits : ∀ c ∈ digits, c.isDigit = true)
    (hSome : digits ≠ []) (hNext : DigitsEnd rest) :
    digits? (digits ++ rest) = some (Nat.ofDigitChars 10 digits 0, rest) := by
  unfold digits?
  rw [hNext.takeWhile_append hDigits]
  simp [hSome]

theorem ofDigitChars_twoDigits (hn : n < 100) (start : Nat) :
    Nat.ofDigitChars 10 (twoDigits n) start = 100 * start + n := by
  unfold twoDigits
  rw [Nat.ofDigitChars_cons, Nat.ofDigitChars_cons, Nat.ofDigitChars_nil,
    Nat.toNat_digitChar_of_lt_ten (by omega), Nat.toNat_digitChar_of_lt_ten (by omega)]
  change 10 * (10 * start + (48 + n / 10 % 10 - 48)) + (48 + n % 10 - 48) = _
  omega

theorem ofDigitChars_fourDigits (hn : n < 10000) :
    Nat.ofDigitChars 10 (fourDigits n) 0 = n := by
  unfold fourDigits
  rw [Nat.ofDigitChars_append, ofDigitChars_twoDigits (by omega), ofDigitChars_twoDigits (by omega)]
  omega

theorem ofDigitChars_fourDigitsOrMore (n : Nat) :
    Nat.ofDigitChars 10 (fourDigitsOrMore n) 0 = n := by
  unfold fourDigitsOrMore
  rw [Nat.ofDigitChars_append, Nat.ofDigitChars_replicate_zero, Nat.mul_zero,
    Nat.ofDigitChars_ten_toDigits]

theorem fourDigitsOrMore_ne_nil (n : Nat) : fourDigitsOrMore n ≠ [] :=
  List.append_ne_nil_of_right_ne_nil _ Nat.toDigits_ne_nil

theorem isDigit_of_mem_fourDigits {c : Char} (h : c ∈ fourDigits n) : c.isDigit = true :=
  (List.mem_append.mp h).elim isDigit_of_mem_twoDigits isDigit_of_mem_twoDigits

/-- A number of two digits is read back. -/
theorem number?_twoDigits (hn : n < 100) (rest : Text) :
    number? 2 (twoDigits n ++ rest) = some (n, rest) := by
  have hBlank := Text.isBlank_eq_false_of_isDigit (isDigit_digitChar (n / 10))
  have hRead := digitsUpTo?_append (twoDigits n) rest
    (fun c => isDigit_of_mem_twoDigits) (List.cons_ne_nil _ _)
  rw [ofDigitChars_twoDigits hn, Nat.mul_zero, Nat.zero_add] at hRead
  unfold number?
  change digitsUpTo? 2 (Text.skipBlanks (_ :: _)) = _
  rw [Text.skipBlanks_cons hBlank]
  exact hRead

/-- The text says a year: four digits, or a sign and any number of digits. -/
inductive WritesYear : Int → Text → Prop
  | plain (digits : Text) (hLength : digits.length = 4)
      (hDigits : ∀ c ∈ digits, c.isDigit = true) :
      WritesYear (Nat.ofDigitChars 10 digits 0) digits
  | minus (digits : Text) (hSome : digits ≠ []) (hDigits : ∀ c ∈ digits, c.isDigit = true) :
      WritesYear (-(Nat.ofDigitChars 10 digits 0 : Int)) ('-' :: digits)
  | plus (digits : Text) (hSome : digits ≠ []) (hDigits : ∀ c ∈ digits, c.isDigit = true) :
      WritesYear (Nat.ofDigitChars 10 digits 0) ('+' :: digits)

/-- A year without a sign has at most four digits. -/
theorem year?_of_isDigit {c : Char} (hc : c.isDigit = true) :
    year? (c :: rest) = (digitsUpTo? 4 (c :: rest)).map fun r => ((r.1 : Int), r.2) := by
  unfold year?
  rw [Text.skipBlanks_cons (Text.isBlank_eq_false_of_isDigit hc)]
  split
  · rename_i hMinus
    rw [(List.cons.inj hMinus).1] at hc
    cases hc
  · rename_i hPlus
    rw [(List.cons.inj hPlus).1] at hc
    cases hc
  · rfl

/-- A year is read, its sign included, up to the next character that is no digit. -/
theorem WritesYear.year?_append {y : Int} {text : Text} (h : WritesYear y text)
    (hNext : DigitsEnd rest) : year? (text ++ rest) = some (y, rest) := by
  cases h with
  | plain _ hLength hDigits =>
      obtain ⟨c, digits, rfl⟩ := List.exists_cons_of_length_eq_add_one hLength
      have hRead := digitsUpTo?_append (c :: digits) rest hDigits (List.cons_ne_nil c digits)
      rw [hLength] at hRead
      calc year? (c :: (digits ++ rest))
          = (digitsUpTo? 4 (c :: digits ++ rest)).map fun r => ((r.1 : Int), r.2) :=
            year?_of_isDigit (hDigits c List.mem_cons_self)
        _ = some ((Nat.ofDigitChars 10 (c :: digits) 0 : Int), rest) :=
            congrArg (Option.map _) hRead
  | minus digits hSome hDigits =>
      calc year? ('-' :: (digits ++ rest))
          = (digits? (digits ++ rest)).map fun r => (-(r.1 : Int), r.2) := rfl
        _ = some (-(Nat.ofDigitChars 10 digits 0 : Int), rest) :=
            congrArg (Option.map _) (digits?_append hDigits hSome hNext)
  | plus digits hSome hDigits =>
      calc year? ('+' :: (digits ++ rest))
          = (digits? (digits ++ rest)).map fun r => ((r.1 : Int), r.2) := rfl
        _ = some ((Nat.ofDigitChars 10 digits 0 : Int), rest) :=
            congrArg (Option.map _) (digits?_append hDigits hSome hNext)

theorem writesYear_year (y : Int) : WritesYear y (year y) := by
  unfold year
  split
  · rename_i hPlain
    have h := WritesYear.plain (fourDigits y.toNat) rfl fun c => isDigit_of_mem_fourDigits
    rwa [ofDigitChars_fourDigits (by omega), Int.toNat_of_nonneg hPlain.1] at h
  · have hSome := fourDigitsOrMore_ne_nil y.natAbs
    split
    · have h := WritesYear.minus _ hSome fun c => isDigit_of_mem_fourDigitsOrMore
      rwa [ofDigitChars_fourDigitsOrMore, show -(y.natAbs : Int) = y by omega] at h
    · have h := WritesYear.plus _ hSome fun c => isDigit_of_mem_fourDigitsOrMore
      rwa [ofDigitChars_fourDigitsOrMore, show (y.natAbs : Int) = y by omega] at h

end Field

/-! ### Days and clock times -/

/-- A stored day is taken off the front of a text. -/
theorem DayStyle.take?_stored (d : Date) (rest : Text) :
    iso.take? (d.stored ++ rest) = some (d, rest) := by
  obtain ⟨hMonthLt, hDayLt, -, -⟩ := (Instant.midnight d).fields_lt
  have hYear := (Field.writesYear_year d.year).year?_append
    (Field.DigitsEnd.cons (c := '-') (by decide) (Field.twoDigits d.month ++
      '-' :: (Field.twoDigits d.day ++ rest)))
  have hMonth := Field.number?_twoDigits (n := d.month) hMonthLt
    ('-' :: (Field.twoDigits d.day ++ rest))
  have hDay := Field.number?_twoDigits (n := d.day) hDayLt rest
  unfold Date.stored take?
  simp only [List.append_assoc, List.cons_append, hYear, Field.char?, hMonth, hDay, if_true,
    Option.bind_eq_bind, Option.bind_some, Date.ofParts?_self, Option.pure_def]

namespace Instant

variable (t : Instant)

/-- Without its fraction a second stays the same, or the same leap second. -/
theorem wholeNanos_lt : t.nanos / nanosPerSecond * nanosPerSecond < nanosPerSecond ∨
    t.second % 60 = 59 ∧ t.nanos / nanosPerSecond * nanosPerSecond < 2 * nanosPerSecond := by
  have hNanos := t.nanos_lt
  simp only [nanosPerSecond] at *
  omega

/-- The instant without the fraction of its second. -/
def wholeSecond : Instant :=
  ⟨t.date, t.second, t.nanos / nanosPerSecond * nanosPerSecond, t.second_lt, t.wholeNanos_lt⟩

variable {t} in
theorem wholeSecond_of_isWhole (h : t.IsWhole) : t.wholeSecond = t := by
  have hNanos : t.nanos / nanosPerSecond * nanosPerSecond = t.nanos := by
    rcases h with hZero | hLeap
    · rw [hZero]
      rfl
    · rw [hLeap]
      rfl
  unfold wholeSecond
  simp only [hNanos]

/-- A fraction of a second has no place in the stored text. -/
theorem stored_wholeSecond : t.wholeSecond.stored = t.stored := by
  have hShown : t.wholeSecond.shownSecond = t.shownSecond := by
    show t.second % 60 + t.nanos / nanosPerSecond * nanosPerSecond / nanosPerSecond =
      t.second % 60 + t.nanos / nanosPerSecond
    rw [Nat.mul_div_cancel _ (by decide)]
  unfold stored
  rw [hShown]
  rfl

theorem hour_lt : t.hour < 24 := by
  have hSecond := t.second_lt
  unfold hour
  simp only [secondsPerDay] at hSecond
  omega

theorem minute_lt : t.minute < 60 := by
  unfold minute
  omega

/-- The clock shows the second, and 60 in a leap second. -/
theorem ofClock?_shown :
    ofClock? t.date t.hour t.minute t.shownSecond = some t.wholeSecond := by
  have hNanos := t.nanos_lt
  have hHour := t.hour_lt
  have hMinute := t.minute_lt
  unfold ofClock? wholeSecond
  by_cases hLeap : t.nanos < nanosPerSecond
  · have hShown : t.shownSecond = t.second % 60 := by
      unfold shownSecond
      rw [Nat.div_eq_of_lt hLeap, Nat.add_zero]
    have hSecond : t.hour * 3600 + t.minute * 60 + t.shownSecond = t.second := by
      rw [hShown]
      unfold hour minute
      omega
    rw [dif_pos ⟨hHour, hMinute, by omega⟩]
    simp only [hSecond, Nat.div_eq_of_lt hLeap, Nat.zero_mul]
  · have hOne : t.nanos / nanosPerSecond = 1 := by
      simp only [nanosPerSecond] at *
      omega
    have hLast : t.second % 60 = 59 := by omega
    have hShown : t.shownSecond = 60 := by
      unfold shownSecond
      rw [hOne, hLast]
    have hSecond : t.hour * 3600 + t.minute * 60 + 59 = t.second := by
      unfold hour minute
      omega
    rw [dif_neg (by omega), dif_pos ⟨hHour, hMinute, hShown⟩]
    simp only [hSecond, hOne, Nat.one_mul]

end Instant

namespace ClockStyle

variable {hour minute second : Nat}

theorem read_minutes (hHour : hour < 100) (hMinute : minute < 100) :
    minutes.read (Field.twoDigits hour ++ ':' :: Field.twoDigits minute) =
      some ⟨hour, minute, 0⟩ := by
  have hFirst := Field.number?_twoDigits hHour (':' :: Field.twoDigits minute)
  have hLast := Field.number?_twoDigits hMinute []
  rw [List.append_nil] at hLast
  simp [read, take?, hFirst, Field.char?, hLast]

theorem read_seconds (hHour : hour < 100) (hMinute : minute < 100) (hSecond : second < 100) :
    seconds.read (Field.twoDigits hour ++ ':' :: (Field.twoDigits minute ++
      ':' :: Field.twoDigits second)) = some ⟨hour, minute, second⟩ := by
  have hFirst := Field.number?_twoDigits hHour (':' :: (Field.twoDigits minute ++
    ':' :: Field.twoDigits second))
  have hNext := Field.number?_twoDigits hMinute (':' :: Field.twoDigits second)
  have hLast := Field.number?_twoDigits hSecond []
  rw [List.append_nil] at hLast
  simp [read, take?, hFirst, Field.char?, hNext, hLast]

/-- A time to the minute is no time to the second. -/
theorem read_seconds_of_minutes (hHour : hour < 100) (hMinute : minute < 100) :
    seconds.read (Field.twoDigits hour ++ ':' :: Field.twoDigits minute) = none := by
  have hFirst := Field.number?_twoDigits hHour (':' :: Field.twoDigits minute)
  have hLast := Field.number?_twoDigits hMinute []
  rw [List.append_nil] at hLast
  simp [read, take?, hFirst, Field.char?, hLast]

end ClockStyle

/-- After a stored day and the letter the clock time is read. -/
theorem InstantStyle.read_stored (d : Date) (clock : ClockStyle) (rest : Text) :
    read ⟨.iso, .letter, clock⟩ (d.stored ++ 'T' :: rest) =
      (clock.read rest).bind fun r => Instant.ofClock? d r.hour r.minute r.second := by
  simp [read, DayStyle.take?_stored, Gap.take?, Field.char?]

/-! ### Instants -/

namespace Instant

/-- Characters of stored instants. -/
def isStoredChar (c : Char) : Bool :=
  c.isDigit || c == '-' || c == '+' || c == 'T' || c == ':'

theorem isStoredChar_of_isDigit {c : Char} (h : c.isDigit = true) : isStoredChar c = true := by
  unfold isStoredChar
  rw [h]
  rfl

theorem all_isStoredChar_twoDigits (n : Nat) :
    (Field.twoDigits n).all isStoredChar = true :=
  List.all_eq_true.mpr fun _ hc => isStoredChar_of_isDigit (Field.isDigit_of_mem_twoDigits hc)

theorem all_isStoredChar_year (y : Int) : (Field.year y).all isStoredChar = true := by
  unfold Field.year
  split
  · exact List.all_eq_true.mpr fun _ hc =>
      isStoredChar_of_isDigit (Field.isDigit_of_mem_fourDigits hc)
  · rw [List.all_cons, Bool.and_eq_true]
    refine ⟨by split <;> decide, List.all_eq_true.mpr fun _ hc => ?_⟩
    exact isStoredChar_of_isDigit (Field.isDigit_of_mem_fourDigitsOrMore hc)

variable (t : Instant)

theorem isStoredChar_of_mem_stored {c : Char} (h : c ∈ t.stored) : isStoredChar c = true := by
  have hAll : t.stored.all isStoredChar = true := by
    have hMarks : isStoredChar '-' = true ∧ isStoredChar 'T' = true ∧ isStoredChar ':' = true := by
      decide
    unfold stored Date.stored
    split <;> simp [all_isStoredChar_year, all_isStoredChar_twoDigits, hMarks]
  exact List.all_eq_true.mp hAll c h

theorem slash_not_mem_stored : '/' ∉ t.stored :=
  fun h => absurd (t.isStoredChar_of_mem_stored h) (by decide)

theorem trim_stored : Text.trim t.stored = t.stored := by
  refine Text.trim_of_solid fun c hc => ?_
  have hChar := t.isStoredChar_of_mem_stored hc
  simp only [isStoredChar, Bool.or_eq_true, beq_iff_eq] at hChar
  rcases hChar with (((hDigit | rfl) | rfl) | rfl) | rfl
  · exact Text.isBlank_eq_false_of_isDigit hDigit
  · decide
  · decide
  · decide
  · decide

/-- What is stored of an instant names its whole second. -/
theorem ofStored?_stored : ofStored? t.stored = some t.wholeSecond := by
  have hHour : t.hour < 100 := t.fields_lt.2.2.1
  have hMinute : t.minute < 100 := t.fields_lt.2.2.2
  have hStyles : ofStyles? storedStyles t.stored = some t.wholeSecond := by
    unfold ofStyles? storedStyles stored
    by_cases hZero : t.shownSecond = 0
    · -- Without a second the first style does not read the text.
      have hClock := t.ofClock?_shown
      rw [hZero] at hClock
      simp [hZero, InstantStyle.read_stored, ClockStyle.read_seconds_of_minutes hHour hMinute,
        ClockStyle.read_minutes hHour hMinute, hClock]
    · simp [hZero, InstantStyle.read_stored,
        ClockStyle.read_seconds hHour hMinute t.shownSecond_lt, t.ofClock?_shown]
  unfold ofStored?
  simp only [trim_stored, hStyles]
  rfl

variable {t} in
/-- A whole second is read back as it was. -/
theorem ofStored?_stored_of_isWhole (h : t.IsWhole) : ofStored? t.stored = some t := by
  rw [ofStored?_stored, wholeSecond_of_isWhole h]

/-- Different whole seconds have different texts. -/
theorem stored_inj {a b : Instant} (ha : a.IsWhole) (hb : b.IsWhole) :
    a.stored = b.stored ↔ a = b := by
  refine ⟨fun hText => ?_, congrArg stored⟩
  have hRead : some a = some b :=
    calc some a = ofStored? a.stored := (ofStored?_stored_of_isWhole ha).symm
      _ = ofStored? b.stored := congrArg ofStored? hText
      _ = some b := ofStored?_stored_of_isWhole hb
  exact Option.some.inj hRead

/-- No text with a slash is a stored instant. -/
theorem ofStored?_eq_none_of_slash {text : Text} (h : '/' ∈ text) : ofStored? text = none := by
  rw [Option.eq_none_iff_forall_ne_some]
  intro t hRead
  have hSlash : Mark (· == '/') := mark_of_separator (by decide) (by decide) (by decide)
  have hCount := (countP_ofStored? hSlash hRead).2
  have hPos : 0 < text.countP (· == '/') := List.countP_pos_iff.mpr ⟨'/', h, rfl⟩
  simp only [marksOf] at hCount
  exact absurd hCount (by simpa using hPos)

end Instant

/-! ### Spans -/

namespace Interval

/-- The two texts of a stored span are those of its ends. -/
theorem splitStored?_stored (i : Interval) :
    splitStored? i.stored = some (i.start.stored, i.stop.stored) := by
  have hCut : Text.cutAt (· == '/') i.stored = some (i.start.stored, i.stop.stored) := by
    refine Text.cutAt_append_cons (fun c hc => ?_) rfl
    rw [beq_eq_false_iff_ne]
    rintro rfl
    exact i.start.slash_not_mem_stored hc
  unfold splitStored?
  rw [hCut]
  simp [i.stop.slash_not_mem_stored, Instant.trim_stored]

/-- A stored span of whole seconds is read back as it was. -/
theorem ofStored?_stored {i : Interval} (hStart : i.start.IsWhole) (hStop : i.stop.IsWhole) :
    ofStored? i.stored = some i := by
  unfold ofStored?
  rw [splitStored?_stored]
  simp [Instant.ofStored?_stored_of_isWhole hStart, Instant.ofStored?_stored_of_isWhole hStop]

/-- Spans with different ends have different texts. -/
theorem stored_inj {i j : Interval} (hi : i.start.IsWhole ∧ i.stop.IsWhole)
    (hj : j.start.IsWhole ∧ j.stop.IsWhole) :
    i.stored = j.stored ↔ i.start = j.start ∧ i.stop = j.stop := by
  constructor
  · intro hText
    have hRead : some i = some j :=
      calc some i = ofStored? i.stored := (ofStored?_stored hi.1 hi.2).symm
        _ = ofStored? j.stored := congrArg ofStored? hText
        _ = some j := ofStored?_stored hj.1 hj.2
    obtain rfl : i = j := Option.some.inj hRead
    exact ⟨rfl, rfl⟩
  · rintro ⟨hStart, hStop⟩
    unfold stored
    rw [hStart, hStop]

/-- A stored span is not read as an instant. -/
theorem instant_ofStored?_stored (i : Interval) : Instant.ofStored? i.stored = none :=
  Instant.ofStored?_eq_none_of_slash (List.mem_append_right _ List.mem_cons_self)

end Interval

end TableTalk
