import TableTalk.Proofs.Number.FewDigits
import TableTalk.Proofs.Text.Words

/-!
# The number that a text opens with

What it is to write a number is said here without a reader: a sign, digits on either side of
a point, and a power of ten (`Text.Writes`).  A text opens with the number that its longest
such beginning writes, blanks apart, and with zero if no beginning writes one
(`Text.Opens`).

The reader takes the longest beginning and computes what it writes.  So each text opens with
exactly one number, that of `Decimal.leading` (`Text.opens_iff`), and texts that open with
numbers of few digits are compared by these numbers (`Text.real_le_real_iff`).
-/

namespace TableTalk

namespace Numeral

/-- The text holds nothing but digits. -/
def Digits (t : Text) : Prop :=
  ∀ c ∈ t, c.isDigit = true

/-- A sign, which may be left out. -/
inductive Sign : Text → Bool → Prop
  | none : Sign [] false
  | plus : Sign ['+'] false
  | minus : Sign ['-'] true

/-- A point and the digits after it, which may be left out. -/
inductive Fraction : Text → Text → Prop
  | none : Fraction [] []
  | point {digits : Text} (h : Digits digits) : Fraction ('.' :: digits) digits

/-- A power of ten, which may be left out. -/
inductive Power : Text → ℤ → Prop
  | none : Power [] 0
  | letter {c : Char} {sign digits : Text} {negative : Bool} (hc : c = 'e' ∨ c = 'E')
      (hSign : Sign sign negative) (hDigits : Digits digits) (hSome : digits ≠ []) :
      Power (c :: (sign ++ digits))
        (if negative then -Nat.ofDigitChars 10 digits 0 else Nat.ofDigitChars 10 digits 0)

theorem Fraction.eq_nil {digits : Text} (h : Fraction [] digits) : digits = [] := by
  cases h
  rfl

theorem Power.eq_zero {e : ℤ} (h : Power [] e) : e = 0 := by
  cases h
  rfl

end Numeral

open Numeral

namespace Text

/-- The text writes a number. -/
inductive Writes : Text → ℚ → Prop
  | mk {sign whole fraction digits power : Text} {negative : Bool} {e : ℤ}
      (hSign : Sign sign negative) (hWhole : Digits whole) (hFraction : Fraction fraction digits)
      (hSome : whole ++ digits ≠ []) (hPower : Power power e) :
      Writes (sign ++ (whole ++ (fraction ++ power)))
        ((if negative then -1 else 1) *
          (Nat.ofDigitChars 10 whole 0 + Nat.ofDigitChars 10 digits 0 / 10 ^ digits.length) *
          10 ^ e)

/-- The text opens with a number, blanks apart. -/
inductive Opens (t : Text) : ℚ → Prop
  /-- The longest beginning that writes a number writes this one -/
  | number {p : Text} {x : ℚ} (hPrefix : p <+: t.dropWhile Decimal.isCellBlank)
      (hWrites : p.Writes x)
      (hLongest : ∀ (q : Text) (y : ℚ), q <+: t.dropWhile Decimal.isCellBlank → q.Writes y →
        q.length ≤ p.length) : Opens t x
  | nothing (h : ∀ (q : Text) (y : ℚ), q <+: t.dropWhile Decimal.isCellBlank → ¬ q.Writes y) :
      Opens t 0

end Text

namespace Decimal

/-! ### What the reader has taken -/

theorem drop_length_takeWhile (p : Char → Bool) (t : Text) :
    t.drop (t.takeWhile p).length = t.dropWhile p :=
  calc t.drop (t.takeWhile p).length
      = (t.takeWhile p ++ t.dropWhile p).drop (t.takeWhile p).length := by
        rw [List.takeWhile_append_dropWhile]
    _ = t.dropWhile p := List.drop_left

theorem digits_takeWhile (t : Text) : Digits (t.takeWhile Char.isDigit) := by
  intro c hc
  exact List.mem_takeWhile_imp hc

theorem sign_takeSign (t : Text) :
    ∃ sign, Sign sign (takeSign t).1 ∧ t = sign ++ (takeSign t).2 := by
  unfold takeSign
  split
  · exact ⟨_, .minus, rfl⟩
  · exact ⟨_, .plus, rfl⟩
  · exact ⟨_, .none, rfl⟩

theorem takeFraction_point (t : Text) :
    takeFraction ('.' :: t) = (t.takeWhile Char.isDigit, t.dropWhile Char.isDigit) := by
  change (t.takeWhile Char.isDigit, t.drop (t.takeWhile Char.isDigit).length) = _
  rw [drop_length_takeWhile]

theorem fraction_takeFraction (t : Text) :
    ∃ fraction, Fraction fraction (takeFraction t).1 ∧ t = fraction ++ (takeFraction t).2 := by
  by_cases hPoint : ∃ rest, t = '.' :: rest
  · obtain ⟨rest, rfl⟩ := hPoint
    rw [takeFraction_point]
    refine ⟨_, .point (digits_takeWhile rest), ?_⟩
    rw [List.cons_append, List.takeWhile_append_dropWhile]
  · unfold takeFraction
    split
    · exact absurd ⟨_, rfl⟩ hPoint
    · exact ⟨_, .none, rfl⟩

theorem toLower_eq_e_iff (c : Char) : c.toLower = 'e' ↔ c = 'e' ∨ c = 'E' := by
  constructor
  · intro h
    rcases toLower_cases c with hSame | ⟨-, -, hShift⟩
    · exact Or.inl (hSame.symm.trans h)
    · right
      rw [h] at hShift
      have hCode : c.toNat = 'E'.toNat := by
        change 101 = c.toNat + 32 at hShift
        change c.toNat = 69
        omega
      exact Char.toNat_inj.mp hCode
  · rintro (rfl | rfl) <;> rfl

theorem power_takeExponent (t : Text) :
    ∃ power, Power power (takeExponent t).1 ∧ t = power ++ (takeExponent t).2 := by
  cases t with
  | nil => exact ⟨[], .none, rfl⟩
  | cons c rest =>
      unfold takeExponent
      dsimp only
      split
      · rename_i hLetter
        split
        · exact ⟨[], .none, rfl⟩
        · rename_i hSome
          obtain ⟨sign, hSign, hRest⟩ := sign_takeSign rest
          refine ⟨_, .letter ((toLower_eq_e_iff c).mp hLetter) hSign (digits_takeWhile _)
            (by simpa using hSome), ?_⟩
          rw [drop_length_takeWhile, List.cons_append, List.append_assoc,
            List.takeWhile_append_dropWhile, ← hRest]
      · exact ⟨[], .none, rfl⟩

/-- What the reader computes is the number that is written. -/
theorem value_mk (negative : Bool) (whole digits : Text) (e : ℤ) :
    (⟨negative, Nat.ofDigitChars 10 (whole ++ digits) 0, e - digits.length⟩ : Decimal).value =
      (if negative then -1 else 1) *
        (Nat.ofDigitChars 10 whole 0 + Nat.ofDigitChars 10 digits 0 / 10 ^ digits.length) *
        10 ^ e := by
  have hDigits : Nat.ofDigitChars 10 (whole ++ digits) 0 =
      10 ^ digits.length * Nat.ofDigitChars 10 whole 0 + Nat.ofDigitChars 10 digits 0 := by
    rw [Nat.ofDigitChars_append, Nat.ofDigitChars_eq_ofDigitChars_zero]
  have hPower : (10 : ℚ) ^ digits.length ≠ 0 := by positivity
  unfold value
  dsimp only
  rw [hDigits, zpow_sub₀ (by norm_num), zpow_natCast]
  push_cast
  field_simp

/-- What the reader takes off the front writes the number it gives. -/
theorem writes_of_take? {t rest : Text} {d : Decimal} (h : take? t = some (d, rest)) :
    ∃ p : Text, p.Writes d.value ∧ t = p ++ rest := by
  obtain ⟨sign, hSign, ht⟩ := sign_takeSign t
  unfold take? at h
  dsimp only at h
  generalize (takeSign t).2 = unsigned at *
  rw [drop_length_takeWhile] at h
  obtain ⟨fraction, hFraction, hRest⟩ := fraction_takeFraction (unsigned.dropWhile Char.isDigit)
  generalize takeFraction (unsigned.dropWhile Char.isDigit) = taken at *
  obtain ⟨power, hPower, hEnd⟩ := power_takeExponent taken.2
  split at h
  · cases h
  · rename_i hSome
    obtain ⟨rfl, rfl⟩ := Prod.mk.inj (Option.some.inj h)
    have hNonempty : unsigned.takeWhile Char.isDigit ++ taken.1 ≠ [] := by
      simpa [List.append_eq_nil_iff] using hSome
    have hWrites := Text.Writes.mk hSign (digits_takeWhile unsigned) hFraction hNonempty hPower
    rw [← value_mk] at hWrites
    refine ⟨_, hWrites, ?_⟩
    simp only [List.append_assoc]
    rw [← hEnd, ← hRest, List.takeWhile_append_dropWhile, ← ht]

/-! ### The reader takes as much as it can -/

theorem ne_sign_of_isDigit {c : Char} (h : c.isDigit = true) : c ≠ '-' ∧ c ≠ '+' := by
  constructor
  · rintro rfl
    cases h
  · rintro rfl
    cases h

theorem takeSign_append {sign u : Text} {negative : Bool} (hSign : Sign sign negative)
    (hNext : ∀ c ∈ u.head?, c ≠ '-' ∧ c ≠ '+') : takeSign (sign ++ u) = (negative, u) := by
  cases hSign with
  | plus => rfl
  | minus => rfl
  | none =>
      rw [List.nil_append]
      unfold takeSign
      split
      · exact absurd rfl (hNext '-' rfl).1
      · exact absurd rfl (hNext '+' rfl).2
      · rfl

theorem takeWhile_eq_nil_of_dropWhile {t : Text} (h : t.dropWhile Char.isDigit = t) :
    t.takeWhile Char.isDigit = [] := by
  have hSplit : t.takeWhile Char.isDigit ++ t.dropWhile Char.isDigit = t :=
    List.takeWhile_append_dropWhile
  rw [h] at hSplit
  exact List.append_left_eq_self.mp hSplit

/-- A power of ten is taken whole, and more digits after it. -/
theorem takeExponent_append {power : Text} {e : ℤ} (h : Power power e) (rest : Text) :
    ∃ k v, takeExponent (power ++ rest) = (k, v) ∧ v <:+ rest ∧ (v = rest → k = e) := by
  cases h with
  | none =>
      obtain ⟨power, hPower, hRest⟩ := power_takeExponent rest
      refine ⟨(takeExponent rest).1, (takeExponent rest).2, rfl, ⟨power, hRest.symm⟩,
        fun hSame => ?_⟩
      rw [hSame] at hRest
      obtain rfl : power = [] := List.self_eq_append_left.mp hRest
      exact hPower.eq_zero
  | @letter c sign digits negative hc hSign hDigits hSome =>
      have hNext : ∀ x ∈ (digits ++ rest).head?, x ≠ '-' ∧ x ≠ '+' := by
        intro x hx
        rw [List.head?_append_of_ne_nil _ hSome] at hx
        exact ne_sign_of_isDigit (hDigits x (List.mem_of_mem_head? hx))
      have hTaken : (digits ++ rest).takeWhile Char.isDigit =
          digits ++ rest.takeWhile Char.isDigit :=
        List.takeWhile_append_of_pos hDigits
      have hLeft : (digits ++ rest).dropWhile Char.isDigit = rest.dropWhile Char.isDigit :=
        List.dropWhile_append_of_pos hDigits
      have hRead : takeExponent (c :: (sign ++ digits) ++ rest) =
          (if negative then -(Nat.ofDigitChars 10 (digits ++ rest.takeWhile Char.isDigit) 0 : ℤ)
            else Nat.ofDigitChars 10 (digits ++ rest.takeWhile Char.isDigit) 0,
            rest.dropWhile Char.isDigit) := by
        unfold takeExponent
        rw [List.cons_append, List.append_assoc]
        dsimp only
        rw [if_pos ((toLower_eq_e_iff c).mpr hc), takeSign_append hSign hNext]
        dsimp only
        rw [drop_length_takeWhile, hTaken, hLeft, if_neg (by simp [hSome])]
      refine ⟨_, _, hRead, List.dropWhile_suffix _, fun hSame => ?_⟩
      rw [takeWhile_eq_nil_of_dropWhile hSame, List.append_nil]

/-- What may be taken too much before a power of ten: digits, if there is no power. -/
def TakesOn (power rest more v : Text) : Prop :=
  more = [] ∧ v = power ++ rest ∨ power = [] ∧ v <:+ rest ∧ (v = rest → more = [])

theorem takesOn_digits {power : Text} {e : ℤ} (h : Power power e) (rest : Text) :
    TakesOn power rest ((power ++ rest).takeWhile Char.isDigit)
      ((power ++ rest).dropWhile Char.isDigit) := by
  cases h with
  | none => exact Or.inr ⟨rfl, List.dropWhile_suffix _, takeWhile_eq_nil_of_dropWhile⟩
  | letter hc hSign hDigits hSome =>
      left
      rcases hc with rfl | rfl <;> exact ⟨rfl, rfl⟩

theorem takesOn_fraction {power : Text} {e : ℤ} (h : Power power e) (rest : Text) :
    TakesOn power rest (takeFraction (power ++ rest)).1 (takeFraction (power ++ rest)).2 := by
  cases h with
  | none =>
      obtain ⟨fraction, hFraction, hRest⟩ := fraction_takeFraction rest
      refine Or.inr ⟨rfl, ⟨fraction, hRest.symm⟩, fun hSame => ?_⟩
      rw [List.nil_append] at hSame ⊢
      rw [hSame] at hRest
      obtain rfl : fraction = [] := List.self_eq_append_left.mp hRest
      exact hFraction.eq_nil
  | letter hc hSign hDigits hSome =>
      left
      rcases hc with rfl | rfl <;> exact ⟨rfl, rfl⟩

/-- A fraction is taken whole. -/
theorem takeFraction_append {fraction digits power : Text} {e : ℤ}
    (hFraction : Fraction fraction digits) (hPower : Power power e) (rest : Text) :
    ∃ more v, takeFraction (fraction ++ (power ++ rest)) = (digits ++ more, v) ∧
      TakesOn power rest more v := by
  cases hFraction with
  | none => exact ⟨_, _, rfl, takesOn_fraction hPower rest⟩
  | point hDigits =>
      refine ⟨_, _, ?_, takesOn_digits hPower rest⟩
      rw [List.cons_append, takeFraction_point, List.takeWhile_append_of_pos hDigits,
        List.dropWhile_append_of_pos hDigits]

/-- The digits before a point are taken whole. -/
theorem takeWhole_append {whole fraction digits power : Text} {e : ℤ} (hWhole : Digits whole)
    (hFraction : Fraction fraction digits) (hPower : Power power e) (rest : Text) :
    ∃ more v, (whole ++ (fraction ++ (power ++ rest))).takeWhile Char.isDigit = whole ++ more ∧
      (whole ++ (fraction ++ (power ++ rest))).dropWhile Char.isDigit = v ∧
      TakesOn (fraction ++ power) rest more v := by
  rw [List.takeWhile_append_of_pos hWhole, List.dropWhile_append_of_pos hWhole]
  refine ⟨_, _, rfl, rfl, ?_⟩
  cases hFraction with
  | none => exact takesOn_digits hPower rest
  | point hDigits =>
      left
      rw [List.append_assoc]
      exact ⟨rfl, rfl⟩

theorem eq_of_suffix_of_suffix {u v w : Text} (huv : u <:+ v) (hvw : v <:+ w) (h : u = w) :
    v = w := by
  rw [h] at huv
  exact hvw.eq_of_length_le huv.length_le

/-- All digits of a number are taken. -/
theorem takeDigits_append {whole fraction digits power : Text} {e : ℤ} (hWhole : Digits whole)
    (hFraction : Fraction fraction digits) (hPower : Power power e) (rest : Text) :
    ∃ more more' v,
      (whole ++ (fraction ++ (power ++ rest))).takeWhile Char.isDigit = whole ++ more ∧
      takeFraction ((whole ++ (fraction ++ (power ++ rest))).dropWhile Char.isDigit) =
        (digits ++ more', v) ∧ TakesOn power rest (more ++ more') v := by
  obtain ⟨more, u, hTaken, hLeft, hExact | ⟨hEnd, hSuffix, hMore⟩⟩ :=
    takeWhole_append hWhole hFraction hPower rest
  · obtain ⟨rfl, rfl⟩ := hExact
    obtain ⟨more', v, hRead, hOn⟩ := takeFraction_append hFraction hPower rest
    refine ⟨[], more', v, hTaken, ?_, hOn⟩
    rw [hLeft, List.append_assoc]
    exact hRead
  · -- The number ended with these digits, so that all that follows is taken too much.
    obtain ⟨rfl, rfl⟩ := List.append_eq_nil_iff.mp hEnd
    obtain rfl := hFraction.eq_nil
    rw [hLeft]
    refine ⟨more, (takeFraction u).1, (takeFraction u).2, hTaken, rfl, Or.inr ⟨rfl, ?_⟩⟩
    rcases takesOn_fraction .none u with ⟨hNone, hSame⟩ | ⟨-, hSuffix', hMore'⟩
    · rw [List.nil_append] at hNone hSame
      rw [hNone, hSame, List.append_nil]
      exact ⟨hSuffix, hMore⟩
    · refine ⟨hSuffix'.trans hSuffix, fun hSame => ?_⟩
      have hu := eq_of_suffix_of_suffix hSuffix' hSuffix hSame
      rw [hMore hu, List.nil_append]
      exact hMore' (hSame.trans hu.symm)

/-- A text that opens with a number is read past it, and as this number if nothing more is
taken. -/
theorem take?_append {p : Text} {x : ℚ} (h : p.Writes x) (rest : Text) :
    ∃ d v, take? (p ++ rest) = some (d, v) ∧ v <:+ rest ∧ (v = rest → d.value = x) := by
  obtain ⟨hSign, hWhole, hFraction, hSome, hPower⟩ := h
  rename_i sign whole fraction digits power negative e
  obtain ⟨more, more', u, hTaken, hRead, hOn⟩ := takeDigits_append hWhole hFraction hPower rest
  have hNext : ∀ c ∈ (whole ++ (fraction ++ (power ++ rest))).head?, c ≠ '-' ∧ c ≠ '+' := by
    intro c hc
    cases whole with
    | cons first whole =>
        obtain rfl : first = c := Option.some.inj hc
        exact ne_sign_of_isDigit (hWhole first List.mem_cons_self)
    | nil =>
        cases hFraction with
        | none => exact absurd rfl hSome
        | point hDigits =>
            obtain rfl : '.' = c := Option.some.inj hc
            decide
  have hNonempty : ((whole ++ more).isEmpty && (digits ++ more').isEmpty) = false := by
    rw [← Bool.not_eq_true]
    intro hNone
    simp only [Bool.and_eq_true, List.isEmpty_iff, List.append_eq_nil_iff] at hNone
    exact hSome (List.append_eq_nil_iff.mpr ⟨hNone.1.1, hNone.2.1⟩)
  obtain ⟨k, v, hExponent, hSuffix, hSame⟩ : ∃ k v, takeExponent u = (k, v) ∧ v <:+ rest ∧
      (v = rest → more ++ more' = [] ∧ k = e) := by
    rcases hOn with ⟨hNone, rfl⟩ | ⟨rfl, hu, hMore⟩
    · obtain ⟨k, v, hExponent, hSuffix, hSame⟩ := takeExponent_append hPower rest
      exact ⟨k, v, hExponent, hSuffix, fun hv => ⟨hNone, hSame hv⟩⟩
    · obtain ⟨k, v, hExponent, hSuffix, hSame⟩ := takeExponent_append .none u
      refine ⟨k, v, hExponent, hSuffix.trans hu, fun hv => ?_⟩
      have hEnd := eq_of_suffix_of_suffix hSuffix hu hv
      exact ⟨hMore hEnd, (hSame (hv.trans hEnd.symm)).trans hPower.eq_zero.symm⟩
  have hTake : take? (sign ++ (whole ++ (fraction ++ (power ++ rest)))) =
      some (⟨negative, Nat.ofDigitChars 10 (whole ++ more ++ (digits ++ more')) 0,
        k - (digits ++ more').length⟩, v) := by
    unfold take?
    rw [takeSign_append hSign hNext]
    dsimp only
    rw [drop_length_takeWhile, hTaken, hRead]
    dsimp only
    rw [hNonempty, hExponent]
    rfl
  simp only [List.append_assoc] at hTake ⊢
  refine ⟨_, v, hTake, hSuffix, fun hv => ?_⟩
  obtain ⟨hMore, rfl⟩ := hSame hv
  obtain ⟨rfl, rfl⟩ := List.append_eq_nil_iff.mp hMore
  simp only [List.nil_append, List.append_nil]
  exact value_mk negative whole digits k

end Decimal

/-! ### The number a text opens with -/

namespace Text

/-- The number that a text opens with. -/
def value (t : Text) : ℚ :=
  (Decimal.leading t).value

theorem value_of_take? {t rest : Text} {d : Decimal}
    (h : Decimal.take? (t.dropWhile Decimal.isCellBlank) = some (d, rest)) :
    t.value = d.value := by
  unfold value Decimal.leading
  rw [h]

theorem value_of_take?_none {t : Text}
    (h : Decimal.take? (t.dropWhile Decimal.isCellBlank) = none) : t.value = 0 := by
  unfold value Decimal.leading
  rw [h]
  exact Decimal.value_zero

/-- Nothing that writes a number is longer than what the reader takes. -/
theorem length_le_of_writes {t p q rest : Text} {d : Decimal} {y : ℚ}
    (hTake : Decimal.take? t = some (d, rest)) (hText : t = p ++ rest) (hPrefix : q <+: t)
    (hWrites : q.Writes y) : q.length ≤ p.length := by
  obtain ⟨rest', rfl⟩ := hPrefix
  obtain ⟨d', v, hSome, hSuffix, -⟩ := Decimal.take?_append hWrites rest'
  obtain ⟨-, rfl⟩ := Prod.mk.inj (Option.some.inj (hTake.symm.trans hSome))
  have hLength := congrArg List.length hText
  have hLess := hSuffix.length_le
  simp only [List.length_append] at hLength
  omega

theorem opens_value (t : Text) : t.Opens t.value := by
  cases hTake : Decimal.take? (t.dropWhile Decimal.isCellBlank) with
  | none =>
      rw [value_of_take?_none hTake]
      refine .nothing fun q y ⟨rest, hRest⟩ hWrites => ?_
      obtain ⟨d, v, hSome, -⟩ := Decimal.take?_append hWrites rest
      rw [hRest, hTake] at hSome
      cases hSome
  | some taken =>
      obtain ⟨p, hWrites, hText⟩ := Decimal.writes_of_take? hTake
      rw [value_of_take? hTake]
      exact .number ⟨taken.2, hText.symm⟩ hWrites fun q y hPrefix hWrites' =>
        length_le_of_writes hTake hText hPrefix hWrites'

/-- **Each text opens with one number**, which is the one that is read. -/
theorem opens_iff {t : Text} {x : ℚ} : t.Opens x ↔ t.value = x := by
  constructor
  · intro h
    cases h with
    | nothing hNone =>
        cases hTake : Decimal.take? (t.dropWhile Decimal.isCellBlank) with
        | none => exact value_of_take?_none hTake
        | some taken =>
            obtain ⟨p, hWrites, hText⟩ := Decimal.writes_of_take? hTake
            exact absurd hWrites (hNone p _ ⟨taken.2, hText.symm⟩)
    | @number p _ hPrefix hWrites hLongest =>
        obtain ⟨rest, hRest⟩ := hPrefix
        obtain ⟨d, v, hTake, hSuffix, hExact⟩ := Decimal.take?_append hWrites rest
        rw [hRest] at hTake
        obtain ⟨p', hWrites', hText⟩ := Decimal.writes_of_take? hTake
        -- The reader has taken no less, and the beginning is the longest.
        have hLength := hLongest p' _ ⟨v, hText.symm⟩ hWrites'
        have hSame : v = rest := by
          refine hSuffix.eq_of_length_le ?_
          have hTotal := congrArg List.length (hRest.trans hText)
          simp only [List.length_append] at hTotal
          omega
        exact (value_of_take? hTake).trans (hExact hSame)
  · rintro rfl
    exact opens_value t

/-- **The database compares numbers of few digits exactly.** -/
theorem real_le_real_iff {a b : Text} {x y : ℚ} (ha : a.Opens x) (hb : b.Opens y)
    (hx : FewDigits x) (hy : FewDigits y) : a.real ≤ b.real ↔ x ≤ y := by
  obtain rfl := opens_iff.mp ha
  obtain rfl := opens_iff.mp hb
  unfold real value at *
  rw [← Decimal.value_kept hx, ← Decimal.value_kept hy] at *
  exact Decimal.nearest_le_nearest_iff hx hy

end Text

end TableTalk
