import TableTalk.Proofs.Text.Words
import TableTalk.Proofs.Time.DayNumbers
import TableTalk.Proofs.Time.Forms

/-!
# Moving by durations

A message may give an instant as `now` and a duration later or earlier.  Two limits meet there,
that of a duration and that of the calendar, and both are met exactly.

* A duration is digits and the letter of a unit (`Duration.read_eq_some_iff`).  It counts the
  seconds that the digits say as a number of any size, and it is refused only if they are too
  many.
* An instant that is moved keeps its fraction, and its second is counted along the calendar
  (`Instant.secondNumber`).  The move fails exactly if there is no such second
  (`Instant.advance_eq_none_iff_movedSecond`, `Instant.isSecond_iff`).

Elsewhere leap seconds are left out, since a move from one does not keep its fraction.

The text of a move is `now`, a sign and a duration, with any blanks between (`Typed.IsMove`).
No other form of an instant has the letters of `now`, and so `Instant.ofTyped?_of_isMove` says
what it means.  `Instant.moved_exactly` puts these together; one consequence is that a move is
undone by the opposite one.
-/

namespace TableTalk

/-! ### Durations -/

namespace Duration

variable {t : Text} {seconds : Nat}

theorem TimeUnit.ofLetter?_eq_some_iff {c : Char} {u : TimeUnit} :
    ofLetter? c = some u ↔ c = u.letter := by
  constructor
  · intro h
    unfold ofLetter? at h
    split at h
    all_goals cases h
    all_goals rfl
  · rintro rfl
    exact ofLetter?_letter u

/-- Digits and the letter of a unit, which say no more seconds than a duration can have. -/
theorem read_eq_some_iff : read t = some seconds ↔ ∃ (digits : Text) (u : TimeUnit),
    Text.trim t = digits ++ [u.letter] ∧ digits ≠ [] ∧ (∀ c ∈ digits, c.isDigit = true) ∧
      seconds = Nat.ofDigitChars 10 digits 0 * u.seconds ∧ seconds ≤ maxSeconds := by
  constructor
  · intro h
    unfold read at h
    split at h
    · cases h
    · rename_i last backwards hBackwards
      have hTrim : Text.trim t = backwards.reverse ++ [last] := by
        rw [← List.reverse_cons, ← hBackwards, List.reverse_reverse]
      split at h
      · cases h
      · rename_i u hUnit
        obtain rfl := TimeUnit.ofLetter?_eq_some_iff.mp hUnit
        split at h
        · rename_i hDigits
          dsimp only at h
          split at h
          · rename_i hLe
            obtain rfl := Option.some.inj h
            refine ⟨backwards.reverse, u, hTrim, ?_, ?_, rfl, hLe⟩
            · simpa using hDigits.1
            · simpa using hDigits.2
          · cases h
        · cases h
  · rintro ⟨digits, u, hTrim, hSome, hDigits, rfl, hLe⟩
    have hBackwards : (Text.trim t).reverse = u.letter :: digits.reverse := by
      rw [hTrim, List.reverse_append, List.reverse_singleton, List.singleton_append]
    have hCheck : digits.reverse ≠ [] ∧ digits.reverse.all Char.isDigit = true := by
      simpa using ⟨hSome, hDigits⟩
    unfold read
    rw [hBackwards]
    simp only [TimeUnit.ofLetter?_letter, if_pos hCheck, List.reverse_reverse, if_pos hLe]

/-- Blanks around a duration make no difference. -/
theorem read_surrounded {lead gap : Text} (hLead : Text.Blank lead) (hGap : Text.Blank gap)
    (t : Text) : read (lead ++ (t ++ gap)) = read t := by
  unfold read
  rw [Text.trim_blank_append hLead, Text.trim_append_blank hGap]

theorem read_trimEnd (t : Text) : read (Text.trimEnd t) = read t := by
  obtain ⟨gap, hGap, ht⟩ := Text.exists_trimEnd t
  calc read (Text.trimEnd t) = read ([] ++ (Text.trimEnd t ++ gap)) :=
        (read_surrounded (fun _ h => absurd h List.not_mem_nil) hGap _).symm
    _ = read t := by rw [List.nil_append, ← ht]

end Duration

/-! ### Seconds along the calendar -/

namespace Instant

variable {t t' : Instant} {n seconds : Int}

/-- The seconds from the start of year 1 to that of an instant, leap seconds not counted. -/
def secondNumber (t : Instant) : Int :=
  t.date.dayNumber * secondsPerDay + t.second

/-- The second lies in a representable year. -/
def IsSecond (n : Int) : Prop :=
  daysBeforeYear minYear * secondsPerDay ≤ n ∧ n < daysBeforeYear (maxYear + 1) * secondsPerDay

/-- An instant is determined by its second and its fraction. -/
theorem eq_of_secondNumber (hSecond : t.secondNumber = t'.secondNumber)
    (hNanos : t.nanos = t'.nanos) : t = t' := by
  apply rank_injective
  unfold secondNumber at hSecond
  unfold rank
  rw [hSecond, hNanos]

theorem isSecond_secondNumber (t : Instant) : IsSecond t.secondNumber := by
  have hFirst := t.date.daysBeforeYear_minYear_le
  have hLast := t.date.dayNumber_lt_daysBeforeYear
  have hSecond := t.second_lt
  unfold IsSecond secondNumber
  simp only [secondsPerDay] at *
  omega

/-- A move counts seconds along the calendar and keeps the fraction. -/
theorem secondNumber_of_advance (hLeap : t.inLeapSecond = false)
    (h : t.advance seconds = some t') :
    t'.secondNumber = t.secondNumber + seconds ∧ t'.nanos = t.nanos := by
  have hNanos : t.nanos % nanosPerSecond = t.nanos := by
    refine Nat.mod_eq_of_lt ?_
    simpa [inLeapSecond] using hLeap
  unfold advance at h
  split at h
  · rename_i hNone
    obtain rfl := Option.some.inj h
    exact ⟨by omega, rfl⟩
  · simp only [hLeap, Bool.false_and, Bool.false_eq_true, if_false, Int.add_zero] at h
    obtain ⟨d, hShift, rfl⟩ := Option.map_eq_some_iff.mp h
    refine ⟨?_, hNanos⟩
    unfold secondNumber
    rw [Date.dayNumber_of_shift hShift]
    dsimp only
    simp only [secondsPerDay]
    omega

/-- The second that an instant is moved to.  A leap second is left backwards as a second of its
own. -/
def movedSecond (t : Instant) (seconds : Int) : Int :=
  t.secondNumber + (if t.inLeapSecond && seconds < 0 then 1 else 0) + seconds

/-- An instant is moved unless its new second is outside the representable years. -/
theorem advance_eq_none_iff_movedSecond :
    t.advance seconds = none ↔ seconds ≠ 0 ∧ ¬ IsSecond (t.movedSecond seconds) := by
  by_cases hNone : seconds = 0
  · simp [advance, hNone]
  · simp only [advance, hNone, if_false, Option.map_eq_none_iff, Date.shift_eq_none_iff]
    unfold IsSecond movedSecond secondNumber
    generalize (if t.inLeapSecond && decide (seconds < 0) then 1 else 0 : Int) = leap
    simp only [secondsPerDay]
    omega

/-- A move fails exactly if it leaves the representable years. -/
theorem advance_eq_none_iff_not_isSecond (hLeap : t.inLeapSecond = false) :
    t.advance seconds = none ↔ ¬ IsSecond (t.secondNumber + seconds) := by
  have hMoved : t.movedSecond seconds = t.secondNumber + seconds := by
    simp [movedSecond, hLeap]
  rw [advance_eq_none_iff_movedSecond, hMoved, and_iff_right_iff_imp]
  rintro hOutside rfl
  rw [Int.add_zero] at hOutside
  exact hOutside t.isSecond_secondNumber

theorem advance_eq_some_iff (hLeap : t.inLeapSecond = false) : t.advance seconds = some t' ↔
    t'.secondNumber = t.secondNumber + seconds ∧ t'.nanos = t.nanos := by
  refine ⟨secondNumber_of_advance hLeap, fun ⟨hSecond, hNanos⟩ => ?_⟩
  cases hMove : t.advance seconds with
  | none =>
      rw [advance_eq_none_iff_not_isSecond hLeap, ← hSecond] at hMove
      exact absurd t'.isSecond_secondNumber hMove
  | some reached =>
      obtain ⟨hSecond', hNanos'⟩ := secondNumber_of_advance hLeap hMove
      rw [eq_of_secondNumber (hSecond'.trans hSecond.symm) (hNanos'.trans hNanos.symm)]

/-- The seconds of the representable years are those of the instants. -/
theorem isSecond_iff : IsSecond n ↔ ∃ t : Instant, t.secondNumber = n := by
  constructor
  · intro h
    have hDay : ¬ Date.ofDayNumber? (n / secondsPerDay) = none := by
      rw [Date.ofDayNumber?_eq_none_iff]
      unfold IsSecond at h
      simp only [secondsPerDay] at *
      omega
    obtain ⟨d, hd⟩ := Option.ne_none_iff_exists'.mp hDay
    have hSecond : (n % secondsPerDay).toNat < secondsPerDay := by
      simp only [secondsPerDay]
      omega
    refine ⟨⟨d, (n % secondsPerDay).toNat, 0, hSecond, Or.inl (by decide)⟩, ?_⟩
    unfold secondNumber
    rw [Date.dayNumber_of_ofDayNumber? hd]
    simp only [secondsPerDay]
    omega
  · rintro ⟨t, rfl⟩
    exact t.isSecond_secondNumber

end Instant

/-! ### The text of a move -/

namespace Typed

/-- Directions in which `now` can be moved. -/
inductive Direction where
  | later
  | earlier
deriving DecidableEq, Repr

namespace Direction

def sign : Direction → Char
  | later => '+'
  | earlier => '-'

/-- The seconds of a move, negative for one to an earlier instant. -/
def signed : Direction → Nat → Int
  | later, seconds => seconds
  | earlier, seconds => -seconds

def opposite : Direction → Direction
  | later => earlier
  | earlier => later

theorem signed_opposite (direction : Direction) (seconds : Nat) :
    direction.opposite.signed seconds = -direction.signed seconds := by
  cases direction with
  | later => rfl
  | earlier => exact (Int.neg_neg _).symm

theorem isBlank_sign (direction : Direction) : Text.isBlank direction.sign = false := by
  cases direction <;> decide

end Direction

/-- The text says that `now` is to be moved: the word in either case, the sign of the direction
and the quantity, with any blanks between them and around. -/
def IsMove (direction : Direction) (quantity t : Text) : Prop :=
  ∃ lead word gap gap' tail, Text.Blank lead ∧ Text.lower word = "now".toList ∧
    Text.Blank gap ∧ Text.Blank gap' ∧ Text.Blank tail ∧
    t = lead ++ (word ++ (gap ++ direction.sign :: (gap' ++ (quantity ++ tail))))

variable {direction : Direction} {quantity t : Text} {now i : Instant}

theorem moved?_sign {gap : Text} (hGap : Text.Blank gap) (now : Instant) (direction : Direction)
    (t : Text) : moved? now (gap ++ direction.sign :: t) =
      (Duration.read t).bind fun seconds => now.advance (direction.signed seconds) := by
  have hSkip : Text.skipBlanks (gap ++ direction.sign :: t) = direction.sign :: t := by
    unfold Text.skipBlanks
    rw [List.dropWhile_append_of_pos hGap]
    exact Text.skipBlanks_cons direction.isBlank_sign t
  unfold moved?
  rw [hSkip]
  cases direction with
  | later => rfl
  | earlier => rfl

/-- Trimming leaves the word, the sign and what follows it. -/
theorem IsMove.trim_eq (h : IsMove direction quantity t) : ∃ gap rest, Text.Blank gap ∧
    afterNow? (Text.trim t) = some (gap ++ direction.sign :: rest) ∧
      Duration.read rest = Duration.read quantity := by
  obtain ⟨lead, word, gap, gap', tail, hLead, hWord, hGap, hGap', hTail, rfl⟩ := h
  obtain ⟨n, o, w, rfl⟩ : ∃ n o w, word = [n, o, w] := by
    have hLength : word.length = 3 := by
      have hLower := congrArg List.length hWord
      simpa [Text.lower] using hLower
    exact List.length_eq_three.mp hLength
  have hLetter : Text.isBlank n = false := by
    have hLower : n.toLower = 'n' := (List.cons.inj hWord).1
    by_contra hBlank
    have hNone := mark_letterN.blank n (eq_true_of_ne_false hBlank)
    rw [isLetterN, hLower] at hNone
    cases hNone
  refine ⟨gap, Text.trimEnd (gap' ++ (quantity ++ tail)), hGap, ?_, ?_⟩
  · have hTrim : Text.trim (lead ++ ([n, o, w] ++
        (gap ++ direction.sign :: (gap' ++ (quantity ++ tail))))) =
        n :: o :: w :: (gap ++ direction.sign :: Text.trimEnd (gap' ++ (quantity ++ tail))) := by
      rw [Text.trim_blank_append hLead, List.cons_append, Text.trim_cons hLetter]
      exact congrArg (n :: ·) (Text.trimEnd_append_cons direction.isBlank_sign (o :: w :: gap) _)
    rw [hTrim, afterNow?, if_pos hWord]
  · rw [Duration.read_trimEnd, Duration.read_surrounded hGap' hTail]

end Typed

namespace Instant

open Typed (Direction IsMove)

variable {now i : Instant} {direction : Direction} {quantity t t' : Text}

/-- A text with the letters of `now` is in no style of an instant. -/
theorem ofTyped?_of_isMove (h : IsMove direction quantity t) (now : Instant) :
    ofTyped? now t =
      (Duration.read quantity).bind fun seconds => now.advance (direction.signed seconds) := by
  obtain ⟨gap, rest, hGap, hNow, hRead⟩ := h.trim_eq
  have hLetters := Typed.countP_pos_of_afterNow? hNow
  have hStyles : Typed.orWithYear now.date.year (ofStyles? Typed.secondStyles) (Text.trim t) =
      none := by
    refine Option.eq_none_iff_forall_ne_some.mpr fun i hInstant => ?_
    have hCount := plainMark_letterN.countP_orWithYear 2 (by decide) hInstant
    have hColon : marksOf isLetterN ':' = 0 := rfl
    omega
  dsimp only [ofTyped?]
  rw [hStyles, hNow]
  dsimp only
  split
  · rename_i hNothing
    exact absurd hNothing (by simp)
  · rename_i hRest
    obtain rfl := Option.some.inj hRest
    rw [Typed.moved?_sign hGap, hRead]
  · rename_i hNothing
    cases hNothing

/-- A moved instant is one that many seconds later or earlier. -/
theorem ofTyped?_eq_some_iff_of_isMove (h : IsMove direction quantity t)
    (hLeap : now.inLeapSecond = false) : ofTyped? now t = some i ↔
      ∃ seconds, Duration.read quantity = some seconds ∧
        i.secondNumber = now.secondNumber + direction.signed seconds ∧ i.nanos = now.nanos := by
  rw [ofTyped?_of_isMove h, Option.bind_eq_some_iff]
  exact exists_congr fun seconds => and_congr_right fun _ => advance_eq_some_iff hLeap

theorem ofTyped?_eq_none_iff_of_isMove (h : IsMove direction quantity t)
    (hLeap : now.inLeapSecond = false) : ofTyped? now t = none ↔
      ∀ seconds, Duration.read quantity = some seconds →
        ¬ IsSecond (now.secondNumber + direction.signed seconds) := by
  rw [ofTyped?_of_isMove h, Option.bind_eq_none_iff]
  exact forall_congr' fun seconds =>
    imp_congr_right fun _ => advance_eq_none_iff_not_isSecond hLeap

/-- A move is undone by the opposite move. -/
theorem ofTyped?_of_opposite (h : IsMove direction quantity t)
    (h' : IsMove direction.opposite quantity t') (hLeap : now.inLeapSecond = false)
    (hMoved : ofTyped? now t = some i) : ofTyped? i t' = some now := by
  obtain ⟨seconds, hRead, hSecond, hNanos⟩ := (ofTyped?_eq_some_iff_of_isMove h hLeap).mp hMoved
  have hLeap' : i.inLeapSecond = false := by
    unfold inLeapSecond at hLeap ⊢
    rw [hNanos, hLeap]
  refine (ofTyped?_eq_some_iff_of_isMove h' hLeap').mpr ⟨seconds, hRead, ?_, hNanos.symm⟩
  rw [hSecond, Direction.signed_opposite]
  omega

/-- **Moves are exact.**  A text is a duration exactly if, trimmed, it is one or more digits and
the letter of a unit that say at most 9223372036854775 seconds, and these are its seconds.
Unless the reference instant is in a leap second, the text of a move by a quantity gives the
instant that is later or earlier by exactly the seconds of the quantity, and it gives none only
if the quantity is no duration or the second is not representable.  The opposite move leads
back. -/
theorem moved_exactly :
    (∀ t seconds, Duration.read t = some seconds ↔
      ∃ (digits : Text) (u : Duration.TimeUnit), Text.trim t = digits ++ [u.letter] ∧
        digits ≠ [] ∧ (∀ c ∈ digits, c.isDigit = true) ∧
        seconds = Nat.ofDigitChars 10 digits 0 * u.seconds ∧ seconds ≤ 9223372036854775) ∧
    ∀ now : Instant, now.inLeapSecond = false →
      ∀ direction quantity t, IsMove direction quantity t →
        (∀ i, ofTyped? now t = some i ↔ ∃ seconds, Duration.read quantity = some seconds ∧
          i.secondNumber = now.secondNumber + direction.signed seconds ∧ i.nanos = now.nanos) ∧
        (ofTyped? now t = none ↔ ∀ seconds, Duration.read quantity = some seconds →
          ¬ ∃ i : Instant, i.secondNumber = now.secondNumber + direction.signed seconds) ∧
        ∀ i t', ofTyped? now t = some i → IsMove direction.opposite quantity t' →
          ofTyped? i t' = some now := by
  refine ⟨fun t seconds => Duration.read_eq_some_iff, fun now hLeap direction quantity t h => ?_⟩
  refine ⟨fun i => ofTyped?_eq_some_iff_of_isMove h hLeap, ?_, fun i t' hMoved h' =>
    ofTyped?_of_opposite h h' hLeap hMoved⟩
  simp only [← isSecond_iff]
  exact ofTyped?_eq_none_iff_of_isMove h hLeap

/-- A morning in April, in the middle of a second. -/
def april : Instant :=
  ⟨⟨2026, 4, 7, by decide⟩, 30617, 250000000, by decide, Or.inl (by decide)⟩

/-- An hour and a half earlier. -/
def aprilEarlier : Instant :=
  ⟨⟨2026, 4, 7, by decide⟩, 25217, 250000000, by decide, Or.inl (by decide)⟩

/-- Ninety minutes, with a zero in front. -/
def ninety : Text :=
  ['0', '9', '0', 'm']

/-- The longest duration. -/
def longest : Text :=
  "9223372036854775s".toList

theorem isMove_ninety : IsMove .earlier ninety ['N', 'o', 'w', ' ', '-', ' ', '0', '9', '0', 'm'] :=
  ⟨[], ['N', 'o', 'w'], [' '], [' '], [], by simp [Text.Blank], by decide,
    by simp [Text.Blank, Text.isBlank], by simp [Text.Blank, Text.isBlank], by simp [Text.Blank],
    rfl⟩

theorem isMove_plain (direction : Direction) (quantity : Text) :
    IsMove direction quantity ('n' :: 'o' :: 'w' :: direction.sign :: quantity) := by
  have hNone : Text.Blank [] := fun _ hc => absurd hc List.not_mem_nil
  exact ⟨[], ['n', 'o', 'w'], [], [], [], hNone, rfl, hNone, hNone, hNone, by simp⟩

/-- Ninety minutes are taken back and added again.  The longest duration leads out of the
representable years. -/
theorem moved_exactly_april :
    april.inLeapSecond = false ∧
    IsMove .earlier ninety ['N', 'o', 'w', ' ', '-', ' ', '0', '9', '0', 'm'] ∧
    ofTyped? april ['N', 'o', 'w', ' ', '-', ' ', '0', '9', '0', 'm'] = some aprilEarlier ∧
    ofTyped? aprilEarlier ('n' :: 'o' :: 'w' :: '+' :: ninety) = some april ∧
    Duration.read longest = some 9223372036854775 ∧
    ofTyped? april ('n' :: 'o' :: 'w' :: '+' :: longest) = none := by
  obtain ⟨hDurations, hMoves⟩ := moved_exactly
  have hLeap : april.inLeapSecond = false := by decide
  have hNinety : Duration.read ninety = some 5400 :=
    (hDurations _ _).mpr ⟨['0', '9', '0'], .minute, by decide, by decide, by simp,
      by decide +kernel, by decide⟩
  have hLongest : Duration.read longest = some 9223372036854775 := by decide +kernel
  obtain ⟨hSome, -, hBack⟩ := hMoves april hLeap .earlier ninety _ isMove_ninety
  have hMoved : ofTyped? april _ = some aprilEarlier :=
    (hSome aprilEarlier).mpr ⟨5400, hNinety, by decide +kernel, rfl⟩
  obtain ⟨-, hNone, -⟩ := hMoves april hLeap .later longest _ (isMove_plain .later longest)
  refine ⟨hLeap, isMove_ninety, hMoved, hBack _ _ hMoved (isMove_plain .later ninety), hLongest,
    hNone.mpr fun seconds hRead => ?_⟩
  obtain rfl : 9223372036854775 = seconds := Option.some.inj (hLongest.symm.trans hRead)
  rw [← isSecond_iff]
  unfold IsSecond
  decide +kernel

end Instant

end TableTalk
