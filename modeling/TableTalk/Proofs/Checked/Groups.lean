import TableTalk.Proofs.Checked.Slices
import TableTalk.Proofs.Time.RoundTrip

/-!
# Groups of a match

Dates are recognized by regular expressions, and what follows reads the texts of their groups.  A
group has a text only if it had a part in the match, so that reading one is an operation that may
fault (`Checked.groupText`).

`Regex.Match` says which matches of a whole text there are, and what their groups hold.  A text may
have several, as the characters of two neighbouring parts can be divided in several ways.  The
engine that picks one is not part of this library: a `Matcher` stands for any engine that gives a
match if there is one, and nothing else.  It also knows the decimal digits of all scripts, of which
ten are in ASCII.

`Matcher.backtracking` is such an engine.  It tries all ways to divide a text (`Regex.ways`), and
these are the matches of its prefixes (`Regex.mem_ways_iff`).

A reading that comes out the same for every match does not depend on the engine, nor can it fault
unless a match makes it (`Matcher.reading_eq_ok`).
-/

namespace TableTalk

/-- Regular expressions with numbered groups. -/
inductive Regex where
  /-- A character of a kind -/
  | one (kind : Char → Bool)
  /-- The letters of a word, in either case -/
  | word (letters : Text)
  /-- Characters of a kind, at least and at most so many -/
  | run (kind : Char → Bool) (least : ℕ) (most : Option ℕ)
  | seq (first second : Regex)
  | either (first second : Regex)
  | optional (inner : Regex)
  | group (number : ℕ) (inner : Regex)

/-- The texts of the groups that have a part in a match, by their numbers. -/
abbrev Captures : Type :=
  List (ℕ × Text)

namespace Regex

variable {rest t : Text} {caps : Captures}

/-- The expression matches the whole text, with these texts of groups. -/
def Match : Regex → Text → Captures → Prop
  | one kind, t, caps => ∃ c, kind c = true ∧ t = [c] ∧ caps = []
  | word letters, t, caps => Text.lower t = letters ∧ caps = []
  | run kind least most, t, caps => (∀ c ∈ t, kind c = true) ∧ least ≤ t.length ∧
      (∀ n ∈ most, t.length ≤ n) ∧ caps = []
  | seq r s, t, caps => ∃ a b front back, t = a ++ b ∧ caps = front ++ back ∧
      r.Match a front ∧ s.Match b back
  | either r s, t, caps => r.Match t caps ∨ s.Match t caps
  | optional r, t, caps => r.Match t caps ∨ t = [] ∧ caps = []
  | group k r, t, caps => ∃ inner, r.Match t inner ∧ caps = (k, t) :: inner

/-- The ways to match the beginning of a text: the texts of groups and what is left.  Longer runs
come before shorter ones. -/
def ways : Regex → Text → List (Captures × Text)
  | one _, [] => []
  | one kind, c :: t => if kind c then [([], t)] else []
  | word letters, t =>
      if Text.lower (t.take letters.length) = letters then [([], t.drop letters.length)] else []
  | run kind least most, t =>
      let longest := (t.takeWhile kind).length
      let lengths := (List.range (longest + 1)).filter fun n =>
        least ≤ n ∧ most.all fun m => n ≤ m
      lengths.reverse.map fun n => ([], t.drop n)
  | seq r s, t => (r.ways t).flatMap fun w => (s.ways w.2).map fun v => (w.1 ++ v.1, v.2)
  | either r s, t => r.ways t ++ s.ways t
  | optional r, t => r.ways t ++ [([], t)]
  | group k r, t =>
      (r.ways t).map fun w => ((k, t.take (t.length - w.2.length)) :: w.1, w.2)

/-! ### Ways and matches -/

/-- The ways of an expression are the matches of what they take. -/
def WaysMatch (r : Regex) : Prop :=
  ∀ t caps rest, (caps, rest) ∈ r.ways t ↔ ∃ a, t = a ++ rest ∧ r.Match a caps

theorem waysMatch_one (kind : Char → Bool) : (one kind).WaysMatch := by
  rintro (_ | ⟨c, t⟩) caps rest
  · simp [ways, Match]
  · simp only [ways, Match]
    by_cases hc : kind c = true
    · constructor
      · intro h
        rw [if_pos hc, List.mem_singleton, Prod.mk.injEq] at h
        obtain ⟨rfl, rfl⟩ := h
        exact ⟨[c], rfl, c, hc, rfl, rfl⟩
      · rintro ⟨_, hText, x, -, rfl, rfl⟩
        obtain ⟨-, rfl⟩ := List.cons.inj hText
        rw [if_pos hc]
        exact List.mem_cons_self
    · refine iff_of_false (by simp [hc]) ?_
      rintro ⟨_, hText, x, hx, rfl, -⟩
      obtain ⟨rfl, -⟩ := List.cons.inj hText
      exact hc hx

theorem waysMatch_word (letters : Text) : (word letters).WaysMatch := by
  intro t caps rest
  simp only [ways, Match]
  constructor
  · intro h
    split at h
    · rename_i hLetters
      obtain ⟨rfl, rfl⟩ := Prod.mk.inj (List.mem_singleton.mp h)
      exact ⟨_, (List.take_append_drop _ t).symm, hLetters, rfl⟩
    · cases h
  · rintro ⟨a, rfl, rfl, rfl⟩
    have hLength : (Text.lower a).length = a.length := List.length_map _
    simp [hLength]

/-- The lengths that are tried for a run are those of its matches. -/
theorem waysMatch_run (kind : Char → Bool) (least : ℕ) (most : Option ℕ) :
    (run kind least most).WaysMatch := by
  intro t caps rest
  simp only [ways, Match, List.mem_map, List.mem_reverse, List.mem_filter, List.mem_range,
    Prod.mk.injEq, decide_eq_true_eq, Option.all_eq_true, Nat.lt_succ_iff]
  constructor
  · rintro ⟨n, ⟨hLength, hLeast, hMost⟩, rfl, rfl⟩
    have hPrefix : t.takeWhile kind <+: t := List.takeWhile_prefix kind
    have hTaken : (t.take n).length = n :=
      List.length_take_of_le (hLength.trans hPrefix.length_le)
    refine ⟨t.take n, (List.take_append_drop n t).symm, fun c hc => ?_, by omega,
      fun m hm => ?_, rfl⟩
    · have hRun : t.take n <+: t.takeWhile kind :=
        List.prefix_of_prefix_length_le (List.take_prefix n t) hPrefix (by omega)
      exact List.mem_takeWhile_imp (hRun.subset hc)
    · rw [hTaken]
      exact hMost m hm
  · rintro ⟨a, rfl, hKind, hLeast, hMost, rfl⟩
    refine ⟨a.length, ⟨?_, hLeast, hMost⟩, rfl, List.drop_left⟩
    rw [List.takeWhile_append_of_pos hKind, List.length_append]
    exact Nat.le_add_right _ _

variable {r s : Regex}

/-- The second expression is tried on what each way of the first has left. -/
theorem WaysMatch.seq (hr : r.WaysMatch) (hs : s.WaysMatch) : (seq r s).WaysMatch := by
  intro t caps rest
  refine List.mem_flatMap.trans ?_
  constructor
  · rintro ⟨⟨front, left⟩, hFirst, hRest⟩
    obtain ⟨⟨back, last⟩, hSecond, hWay⟩ := List.mem_map.mp hRest
    obtain ⟨rfl, rfl⟩ := Prod.mk.inj hWay
    obtain ⟨a, rfl, ha⟩ := (hr _ _ _).mp hFirst
    obtain ⟨b, rfl, hb⟩ := (hs _ _ _).mp hSecond
    exact ⟨a ++ b, (List.append_assoc a b _).symm, a, b, front, back, rfl, rfl, ha, hb⟩
  · rintro ⟨_, rfl, a, b, front, back, rfl, rfl, ha, hb⟩
    have hFirst : (front, b ++ rest) ∈ r.ways (a ++ b ++ rest) :=
      (hr _ _ _).mpr ⟨a, List.append_assoc a b rest, ha⟩
    have hSecond : (back, rest) ∈ s.ways (b ++ rest) := (hs _ _ _).mpr ⟨b, rfl, hb⟩
    exact ⟨(front, b ++ rest), hFirst, List.mem_map.mpr ⟨(back, rest), hSecond, rfl⟩⟩

theorem WaysMatch.either (hr : r.WaysMatch) (hs : s.WaysMatch) : (either r s).WaysMatch := by
  intro t caps rest
  refine List.mem_append.trans ?_
  rw [hr t caps rest, hs t caps rest]
  constructor
  · rintro (⟨a, rfl, ha⟩ | ⟨a, rfl, ha⟩)
    · exact ⟨a, rfl, Or.inl ha⟩
    · exact ⟨a, rfl, Or.inr ha⟩
  · rintro ⟨a, rfl, ha | ha⟩
    · exact Or.inl ⟨a, rfl, ha⟩
    · exact Or.inr ⟨a, rfl, ha⟩

theorem WaysMatch.optional (hr : r.WaysMatch) : (optional r).WaysMatch := by
  intro t caps rest
  refine List.mem_append.trans ?_
  rw [hr t caps rest, List.mem_singleton, Prod.mk.injEq]
  constructor
  · rintro (⟨a, rfl, ha⟩ | ⟨rfl, rfl⟩)
    · exact ⟨a, rfl, Or.inl ha⟩
    · exact ⟨[], rfl, Or.inr ⟨rfl, rfl⟩⟩
  · rintro ⟨a, rfl, ha | ⟨rfl, rfl⟩⟩
    · exact Or.inl ⟨a, rfl, ha⟩
    · exact Or.inr ⟨rfl, rfl⟩

theorem WaysMatch.group (hr : r.WaysMatch) (k : ℕ) : (group k r).WaysMatch := by
  intro t caps rest
  refine List.mem_map.trans ?_
  constructor
  · rintro ⟨⟨inner, left⟩, hInner, hWay⟩
    obtain ⟨rfl, rfl⟩ := Prod.mk.inj hWay
    obtain ⟨a, rfl, ha⟩ := (hr _ _ _).mp hInner
    exact ⟨a, rfl, inner, ha, by simp⟩
  · rintro ⟨a, rfl, inner, ha, rfl⟩
    exact ⟨(inner, rest), (hr _ _ _).mpr ⟨a, rfl, ha⟩, by simp⟩

/-- The ways to match the beginning of a text are the matches of what they take. -/
theorem mem_ways_iff : (caps, rest) ∈ r.ways t ↔ ∃ a, t = a ++ rest ∧ r.Match a caps := by
  suffices h : r.WaysMatch from h t caps rest
  induction r with
  | one kind => exact waysMatch_one kind
  | word letters => exact waysMatch_word letters
  | run kind least most => exact waysMatch_run kind least most
  | seq r s ihr ihs => exact ihr.seq ihs
  | either r s ihr ihs => exact ihr.either ihs
  | optional r ih => exact ih.optional
  | group k r ih => exact ih.group k

end Regex

/-- An engine for regular expressions. -/
structure Matcher where
  /-- The decimal digits of all scripts -/
  isDecimal : Char → Bool
  /-- The texts of groups in a match of a whole text, if it has one -/
  groups? : Regex → Text → Option Captures
  isDecimal_ascii : ∀ c : Char, c.toNat ≤ 127 → isDecimal c = c.isDigit
  isBlank_of_isDecimal : ∀ c, isDecimal c = true → Text.isBlank c = false
  match_of_groups? : ∀ {r t caps}, groups? r t = some caps → r.Match t caps
  groups?_ne_none : ∀ {r t caps}, r.Match t caps → groups? r t ≠ none

/-- The texts of groups in the first way to match a whole text. -/
def Regex.firstGroups? (r : Regex) (t : Text) : Option Captures :=
  ((r.ways t).find? fun w => w.2.isEmpty).map Prod.fst

theorem Regex.match_of_firstGroups? {r : Regex} {t : Text} {caps : Captures}
    (h : r.firstGroups? t = some caps) : r.Match t caps := by
  obtain ⟨⟨caps', rest⟩, hFound, rfl⟩ := Option.map_eq_some_iff.mp h
  obtain rfl : rest = [] := by simpa using List.find?_some hFound
  obtain ⟨a, rfl, hMatch⟩ := Regex.mem_ways_iff.mp (List.mem_of_find?_eq_some hFound)
  rwa [List.append_nil]

theorem Regex.firstGroups?_ne_none {r : Regex} {t : Text} {caps : Captures}
    (h : r.Match t caps) : r.firstGroups? t ≠ none := by
  intro hNone
  have hWay : (caps, []) ∈ r.ways t := Regex.mem_ways_iff.mpr ⟨t, by simp, h⟩
  exact List.find?_eq_none.mp (Option.map_eq_none_iff.mp hNone) _ hWay rfl

/-- The digits of ASCII and the ten that are used with Arabic letters. -/
def isLatinOrArabicDigit (c : Char) : Bool :=
  c.isDigit || (1632 ≤ c.toNat && c.toNat ≤ 1641)

theorem isLatinOrArabicDigit_ascii (c : Char) (hc : c.toNat ≤ 127) :
    isLatinOrArabicDigit c = c.isDigit := by
  have hNot : (1632 ≤ c.toNat && c.toNat ≤ 1641) = false := by
    simp
    omega
  rw [isLatinOrArabicDigit, hNot, Bool.or_false]

theorem isBlank_of_isLatinOrArabicDigit (c : Char) (hc : isLatinOrArabicDigit c = true) :
    Text.isBlank c = false := by
  rcases Bool.or_eq_true_iff.mp hc with hDigit | hOther
  · exact Text.isBlank_eq_false_of_isDigit hDigit
  · simp at hOther
    simp [Text.isBlank]
    omega

/-- The engine that tries all ways to match a text. -/
def Matcher.backtracking : Matcher where
  isDecimal := isLatinOrArabicDigit
  groups? := Regex.firstGroups?
  isDecimal_ascii := isLatinOrArabicDigit_ascii
  isBlank_of_isDecimal := isBlank_of_isLatinOrArabicDigit
  match_of_groups? := Regex.match_of_firstGroups?
  groups?_ne_none := Regex.firstGroups?_ne_none

namespace Checked

/-- The text of a group. -/
def groupText (caps : Captures) (number : ℕ) : Checked Text :=
  match caps.lookup number with
  | some t => .ok t
  | none => .error .group

theorem exists_groupText_iff {caps : Captures} {number : ℕ} :
    (∃ t, groupText caps number = .ok t) ↔ ∃ t, (number, t) ∈ caps := by
  unfold groupText
  cases hLookup : caps.lookup number with
  | some t =>
      obtain ⟨before, after, rfl, -⟩ := List.lookup_eq_some_iff.mp hLookup
      exact iff_of_true ⟨t, rfl⟩ ⟨t, by simp⟩
  | none =>
      refine iff_of_false (by simp) fun ⟨t, ht⟩ => ?_
      have hOther := List.lookup_eq_none_iff.mp hLookup _ ht
      simp at hOther

end Checked

namespace Matcher

variable {α : Type} (M : Matcher) {r : Regex} {t : Text}

/-- What is read off the groups of a match, if there is one. -/
def reading (r : Regex) (t : Text) (read : Captures → Checked (Option α)) : Checked (Option α) :=
  match M.groups? r t with
  | none => return none
  | some caps => read caps

/-- A reading does not depend on the engine: there is a match for what is to be read, and every
match leads to it. -/
theorem reading_eq_ok {read : Captures → Checked (Option α)} {x : Option α}
    (hMatch : ∀ a, x = some a → ∃ caps, r.Match t caps)
    (hRead : ∀ caps, r.Match t caps → read caps = .ok x) : M.reading r t read = .ok x := by
  unfold reading
  cases hGroups : M.groups? r t with
  | some caps => exact hRead caps (M.match_of_groups? hGroups)
  | none =>
      cases x with
      | none => rfl
      | some a =>
          obtain ⟨caps, hCaps⟩ := hMatch a rfl
          exact absurd hGroups (M.groups?_ne_none hCaps)

end Matcher

end TableTalk
