import TableTalk.Proofs.Checked.Groups
import TableTalk.Proofs.Time.Moved

/-!
# Expressions for dates

Durations, moves from `now`, months with days and hours are recognized by these regular
expressions, with any class of decimal digits.  For each of them one lemma says which texts have
a match and what its groups hold.  A month with a day, for one, always has its first two groups,
and the third one exactly if something follows the day (`Regex.match_monthDay_iff`).

Letters of moves and hours go in either case.  The long s is a further case of the letter s, so
that a move can end in one; the unit of a duration cannot.
-/

namespace TableTalk

namespace Regex

variable {decimal kind : Char → Bool} {r s : Regex} {k : ℕ} {t : Text} {caps : Captures}

theorem match_seq_iff : (seq r s).Match t caps ↔ ∃ a b front back, t = a ++ b ∧
    caps = front ++ back ∧ r.Match a front ∧ s.Match b back :=
  Iff.rfl

theorem match_one_iff : (one kind).Match t caps ↔ ∃ c, kind c = true ∧ t = [c] ∧ caps = [] :=
  Iff.rfl

theorem match_group_one_iff :
    (group k (one kind)).Match t caps ↔ ∃ c, kind c = true ∧ t = [c] ∧ caps = [(k, [c])] := by
  constructor
  · rintro ⟨_, ⟨c, hc, rfl, rfl⟩, rfl⟩
    exact ⟨c, hc, rfl, rfl⟩
  · rintro ⟨c, hc, rfl, rfl⟩
    exact ⟨[], ⟨c, hc, rfl, rfl⟩, rfl⟩

theorem match_blanks_iff : (run Text.isBlank 0 none).Match t caps ↔ Text.Blank t ∧ caps = [] := by
  simp [Match, Text.Blank]

/-- One character of a kind or more. -/
structure IsRun (kind : Char → Bool) (t : Text) : Prop where
  ne_nil : t ≠ []
  forall_mem : ∀ c ∈ t, kind c = true

theorem match_run_iff : (run kind 1 none).Match t caps ↔ IsRun kind t ∧ caps = [] := by
  constructor
  · rintro ⟨hKind, hLength, -, rfl⟩
    exact ⟨⟨List.ne_nil_of_length_pos hLength, hKind⟩, rfl⟩
  · rintro ⟨h, rfl⟩
    exact ⟨h.forall_mem, List.length_pos_iff.mpr h.ne_nil, by simp, rfl⟩

theorem match_group_run_iff :
    (group k (run kind 1 none)).Match t caps ↔ IsRun kind t ∧ caps = [(k, t)] := by
  constructor
  · rintro ⟨_, hMatch, rfl⟩
    obtain ⟨hRun, rfl⟩ := match_run_iff.mp hMatch
    exact ⟨hRun, rfl⟩
  · rintro ⟨hRun, rfl⟩
    exact ⟨[], match_run_iff.mpr ⟨hRun, rfl⟩, rfl⟩

/-- A number of one digit or two. -/
structure IsField (decimal : Char → Bool) (digits : Text) : Prop where
  length : digits.length = 1 ∨ digits.length = 2
  forall_mem : ∀ c ∈ digits, decimal c = true

theorem match_field_iff : (group k (run decimal 1 (some 2))).Match t caps ↔
    IsField decimal t ∧ caps = [(k, t)] := by
  constructor
  · rintro ⟨_, ⟨hDecimal, hLow, hHigh, rfl⟩, rfl⟩
    have hMost : t.length ≤ 2 := hHigh 2 rfl
    exact ⟨⟨by omega, hDecimal⟩, rfl⟩
  · rintro ⟨h, rfl⟩
    have hLength := h.length
    refine ⟨[], ⟨h.forall_mem, by omega, fun n hn => ?_, rfl⟩, rfl⟩
    obtain rfl : 2 = n := Option.some.inj hn
    omega

/-! ### Durations and moves -/

/-- Decimal digits and the letter of a unit. -/
def duration (decimal : Char → Bool) : Regex :=
  .seq (.group 1 (.run decimal 1 none)) (.group 2 (.one fun c => ['s', 'm', 'h', 'd'].contains c))

theorem match_duration_iff : (duration decimal).Match t caps ↔ ∃ digits c, t = digits ++ [c] ∧
    IsRun decimal digits ∧ c ∈ ['s', 'm', 'h', 'd'] ∧ caps = [(1, digits), (2, [c])] := by
  simp only [duration, match_seq_iff, match_group_run_iff, match_group_one_iff,
    List.contains_iff_mem]
  constructor
  · rintro ⟨digits, _, _, _, rfl, rfl, ⟨hRun, rfl⟩, c, hc, rfl, rfl⟩
    exact ⟨digits, c, rfl, hRun, hc, rfl⟩
  · rintro ⟨digits, c, rfl, hRun, hc, rfl⟩
    exact ⟨digits, [c], _, _, rfl, rfl, ⟨hRun, rfl⟩, c, hc, rfl, rfl⟩

/-- The letter of a unit in either case.  The long s is another case of its letter. -/
def isUnitLetter (c : Char) : Bool :=
  ['s', 'm', 'h', 'd'].contains c.toLower || c == '\u017f'

/-- A quantity as it is moved by: decimal digits and the letter of a unit, in either case. -/
def quantity (decimal : Char → Bool) : Regex :=
  .group 2 (.seq (.run decimal 1 none) (.one isUnitLetter))

theorem match_quantity_iff : (quantity decimal).Match t caps ↔ ∃ digits c, t = digits ++ [c] ∧
    IsRun decimal digits ∧ isUnitLetter c = true ∧ caps = [(2, t)] := by
  constructor
  · rintro ⟨_, ⟨digits, _, _, _, rfl, rfl, hMatch, c, hc, rfl, rfl⟩, rfl⟩
    obtain ⟨hRun, rfl⟩ := match_run_iff.mp hMatch
    exact ⟨digits, c, rfl, hRun, hc, rfl⟩
  · rintro ⟨digits, c, rfl, hRun, hc, rfl⟩
    exact ⟨[], ⟨digits, [c], [], [], rfl, rfl, match_run_iff.mpr ⟨hRun, rfl⟩, c, hc, rfl, rfl⟩,
      rfl⟩

/-- The word `now`, a sign and a quantity. -/
def move (decimal : Char → Bool) : Regex :=
  .seq (.word "now".toList) (.seq (.run Text.isBlank 0 none)
    (.seq (.group 1 (.one fun c => c == '-' || c == '+'))
      (.seq (.run Text.isBlank 0 none) (quantity decimal))))

/-- A move of `now` in a direction by digits and a letter. -/
structure IsMove (decimal : Char → Bool) (direction : Typed.Direction) (q t : Text) : Prop where
  exists_quantity : ∃ digits c, q = digits ++ [c] ∧ IsRun decimal digits ∧
    isUnitLetter c = true
  exists_parts : ∃ word gap gap', Text.lower word = "now".toList ∧ Text.Blank gap ∧
    Text.Blank gap' ∧ t = word ++ (gap ++ direction.sign :: (gap' ++ q))

theorem exists_direction_iff {c : Char} :
    (c == '-' || c == '+') = true ↔ ∃ direction : Typed.Direction, c = direction.sign := by
  simp only [Bool.or_eq_true, beq_iff_eq]
  constructor
  · rintro (rfl | rfl)
    · exact ⟨.earlier, rfl⟩
    · exact ⟨.later, rfl⟩
  · rintro ⟨_ | _, rfl⟩
    · exact Or.inr rfl
    · exact Or.inl rfl

theorem match_move_iff : (move decimal).Match t caps ↔ ∃ direction q,
    IsMove decimal direction q t ∧ caps = [(1, [direction.sign]), (2, q)] := by
  simp only [move, match_seq_iff, match_blanks_iff, match_group_one_iff, match_quantity_iff,
    exists_direction_iff]
  constructor
  · rintro ⟨word, _, _, _, rfl, rfl, ⟨hWord, rfl⟩, gap, _, _, _, rfl, rfl, ⟨hGap, rfl⟩, _, _, _, _,
      rfl, rfl, ⟨_, ⟨direction, rfl⟩, rfl, rfl⟩, gap', _, _, _, rfl, rfl, ⟨hGap', rfl⟩, digits, c,
      rfl, hRun, hc, rfl⟩
    exact ⟨direction, digits ++ [c], ⟨⟨digits, c, rfl, hRun, hc⟩,
      word, gap, gap', hWord, hGap, hGap', by simp⟩, rfl⟩
  · rintro ⟨direction, q, ⟨⟨digits, c, rfl, hRun, hc⟩, word, gap, gap', hWord, hGap, hGap', rfl⟩,
      rfl⟩
    exact ⟨word, _, [], _, rfl, rfl, ⟨hWord, rfl⟩, gap, _, [], _, rfl, rfl, ⟨hGap, rfl⟩,
      [direction.sign], _, _, _, rfl, rfl, ⟨_, ⟨direction, rfl⟩, rfl, rfl⟩, gap', _, [], _, rfl, rfl,
      ⟨hGap', rfl⟩, digits, c, rfl, hRun, hc, rfl⟩

/-! ### Months with days, and hours -/

/-- Nothing, or a blank and the rest of a line. -/
def LineNext (t : Text) : Prop :=
  t = [] ∨ ∃ c line, t = c :: line ∧ Text.isBlank c = true ∧ '\n' ∉ line

/-- What may follow a month and a day. -/
def line : Regex :=
  .optional (.group 3 (.seq (.one Text.isBlank) (.run (· != '\n') 0 none)))

theorem match_line_iff : line.Match t caps ↔
    LineNext t ∧ caps = if t = [] then [] else [(3, t)] := by
  constructor
  · rintro (⟨_, ⟨_, line, _, _, rfl, rfl, ⟨c, hc, rfl, rfl⟩, hLine, -, -, rfl⟩, rfl⟩ | ⟨rfl, rfl⟩)
    · exact ⟨Or.inr ⟨c, line, rfl, hc, fun hMem => by simpa using hLine _ hMem⟩, rfl⟩
    · exact ⟨Or.inl rfl, rfl⟩
  · rintro ⟨rfl | ⟨c, line, rfl, hc, hLine⟩, rfl⟩
    · exact Or.inr ⟨rfl, rfl⟩
    · refine Or.inl ⟨[], ⟨[c], line, [], [], rfl, rfl, ⟨c, hc, rfl, rfl⟩, fun x hx => ?_,
        Nat.zero_le _, by simp, rfl⟩, rfl⟩
      rw [bne_iff_ne]
      rintro rfl
      exact hLine hx

/-- A month and a day with a slash between them, and what may follow. -/
def monthDay (decimal : Char → Bool) : Regex :=
  .seq (.group 1 (.run decimal 1 (some 2))) (.seq (.one (· == '/'))
    (.seq (.group 2 (.run decimal 1 (some 2))) line))

theorem match_monthDay_iff : (monthDay decimal).Match t caps ↔ ∃ month day rest,
    t = month ++ '/' :: (day ++ rest) ∧ IsField decimal month ∧ IsField decimal day ∧
    LineNext rest ∧ caps = (1, month) :: (2, day) :: if rest = [] then [] else [(3, rest)] := by
  simp only [monthDay, match_seq_iff, match_field_iff, match_one_iff, match_line_iff, beq_iff_eq]
  constructor
  · rintro ⟨month, _, _, _, rfl, rfl, ⟨hMonth, rfl⟩, _, _, _, _, rfl, rfl, ⟨_, rfl, rfl, rfl⟩, day,
      rest, _, _, rfl, rfl, ⟨hDay, rfl⟩, hRest, rfl⟩
    exact ⟨month, day, rest, rfl, hMonth, hDay, hRest, rfl⟩
  · rintro ⟨month, day, rest, rfl, hMonth, hDay, hRest, rfl⟩
    exact ⟨month, _, _, _, rfl, rfl, ⟨hMonth, rfl⟩, ['/'], _, [], _, rfl, rfl, ⟨'/', rfl, rfl, rfl⟩,
      day, rest, _, _, rfl, rfl, ⟨hDay, rfl⟩, hRest, rfl⟩

/-- The letters of a half of the day, after blanks, or blanks alone. -/
def halfOfDay : Regex :=
  .seq (.run Text.isBlank 0 none) (.optional (.group 3 (.either (.word "am".toList)
    (.word "pm".toList))))

theorem match_halfOfDay_iff : halfOfDay.Match t caps ↔ (Text.Blank t ∧ caps = []) ∨
    ∃ gap letters, t = gap ++ letters ∧ Text.Blank gap ∧
      (Text.lower letters = "am".toList ∨ Text.lower letters = "pm".toList) ∧
      caps = [(3, letters)] := by
  simp only [halfOfDay, match_seq_iff, match_blanks_iff]
  constructor
  · rintro ⟨gap, letters, _, _, rfl, rfl, ⟨hGap, rfl⟩,
      ⟨_, ⟨hLetters, rfl⟩ | ⟨hLetters, rfl⟩, rfl⟩ | ⟨rfl, rfl⟩⟩
    · exact Or.inr ⟨gap, letters, rfl, hGap, Or.inl hLetters, rfl⟩
    · exact Or.inr ⟨gap, letters, rfl, hGap, Or.inr hLetters, rfl⟩
    · exact Or.inl ⟨by simpa using hGap, rfl⟩
  · rintro (⟨hGap, rfl⟩ | ⟨gap, letters, rfl, hGap, hLetters, rfl⟩)
    · exact ⟨t, [], [], [], by simp, rfl, ⟨hGap, rfl⟩, Or.inr ⟨rfl, rfl⟩⟩
    · refine ⟨gap, letters, [], _, rfl, rfl, ⟨hGap, rfl⟩, Or.inl ⟨[], ?_, rfl⟩⟩
      rcases hLetters with hLetters | hLetters
      · exact Or.inl ⟨hLetters, rfl⟩
      · exact Or.inr ⟨hLetters, rfl⟩

/-- What stands before an hour, on one line, and an hour of one digit or two. -/
def hour (decimal : Char → Bool) : Regex :=
  .seq (.group 1 (.run (· != '\n') 1 none)) (.seq (.run Text.isBlank 1 none)
    (.seq (.group 2 (.run decimal 1 (some 2))) halfOfDay))

theorem match_hour_iff : (hour decimal).Match t caps ↔ ∃ front gap digits tail back,
    t = front ++ (gap ++ (digits ++ tail)) ∧ IsRun (· != '\n') front ∧
    IsRun Text.isBlank gap ∧ IsField decimal digits ∧ halfOfDay.Match tail back ∧
    caps = (1, front) :: (2, digits) :: back := by
  simp only [hour, match_seq_iff, match_group_run_iff, match_run_iff, match_field_iff]
  constructor
  · rintro ⟨front, _, _, _, rfl, rfl, ⟨hFront, rfl⟩, gap, _, _, _, rfl, rfl, ⟨hGap, rfl⟩, digits,
      tail, _, back, rfl, rfl, ⟨hDigits, rfl⟩, hTail⟩
    exact ⟨front, gap, digits, tail, back, rfl, hFront, hGap, hDigits, hTail, rfl⟩
  · rintro ⟨front, gap, digits, tail, back, rfl, hFront, hGap, hDigits, hTail, rfl⟩
    exact ⟨front, _, _, _, rfl, rfl, ⟨hFront, rfl⟩, gap, _, [], _, rfl, rfl, ⟨hGap, rfl⟩, digits,
      tail, _, back, rfl, rfl, ⟨hDigits, rfl⟩, hTail⟩

end Regex

end TableTalk
