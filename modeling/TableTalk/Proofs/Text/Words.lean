import Mathlib.Data.List.TakeWhile
import Mathlib.Tactic.Conv
import TableTalk.Text.Cut

/-!
# Trimmed texts and their words

Commands are read in two ways at once.  Trimming and words go by all blanks, cuts by the
one space character.  These are the facts about either that the theories of commands rest
on.

* A text is its trimmed end and a run of blanks (`Text.exists_trimEnd`), and trimming stops
  at any other character (`Text.trimEnd_append_cons`).  Blanks on either side make no
  difference to it (`Text.trim_blank_append`, `Text.trim_append_blank`).
* Words fall apart at every blank (`Text.words_append_cons`).  Conversely the first word of
  a text is found in it after blanks and before a blank or the end
  (`Text.exists_of_words_cons`).
* The first cut of a text stays where it is when texts without separators are put around
  it (`Text.cutAt_append_left`, `Text.cutAt_append_right`).
* The last cut of a text is the one with no separator after it
  (`Text.cutAtLast_append_cons`, `Text.exists_of_cutAtLast`).
* Lowering a letter changes its case and nothing else (`toLower_cases`).
-/

namespace TableTalk.Text

/-- A run of blanks. -/
def Blank (t : Text) : Prop :=
  ∀ c ∈ t, isBlank c = true

/-- A text without blanks. -/
def Solid (t : Text) : Prop :=
  ∀ c ∈ t, isBlank c = false

/-- The text is at its end or goes on with a blank. -/
def BlankNext (t : Text) : Prop :=
  ∀ c ∈ t.head?, isBlank c = true

variable {c : Char} {t w gap rest : Text}

theorem isBlank_space : isBlank ' ' = true := rfl

theorem Blank.append {s : Text} (hs : Blank s) (ht : Blank t) : Blank (s ++ t) := by
  intro c hc
  rcases List.mem_append.mp hc with hc | hc
  · exact hs c hc
  · exact ht c hc

/-- A text without blanks has no space. -/
theorem Solid.space_not_mem (h : Solid t) : ' ' ∉ t := by
  intro hSpace
  have hBlank := h ' ' hSpace
  rw [isBlank_space] at hBlank
  cases hBlank

theorem Blank.not_mem (h : Blank t) (hc : isBlank c = false) : c ∉ t := by
  intro hMem
  rw [h c hMem] at hc
  cases hc

theorem BlankNext.nil : BlankNext [] := by
  simp [BlankNext]

theorem BlankNext.of_append {s : Text} (h : BlankNext (s ++ t)) : BlankNext s := by
  rcases s with _ | ⟨c, s⟩
  · exact .nil
  · exact h

/-- A character that stands in two texts in a row stands in one of them. -/
theorem cases_of_append_eq {s a b : Text} (h : s ++ t = a ++ c :: b) :
    (∃ d, s = a ++ c :: d ∧ b = d ++ t) ∨ ∃ d, a = s ++ d ∧ t = d ++ c :: b := by
  rcases List.append_eq_append_iff.mp h with ⟨d, rfl, rfl⟩ | ⟨_ | ⟨x, d⟩, rfl, hd⟩
  · exact Or.inr ⟨d, rfl, rfl⟩
  · exact Or.inr ⟨[], by simp, hd.symm⟩
  · obtain ⟨rfl, rfl⟩ := List.cons.inj hd
    exact Or.inl ⟨d, rfl, rfl⟩

/-! ### Trimming -/

theorem exists_trimEnd (t : Text) : ∃ gap, Blank gap ∧ t = trimEnd t ++ gap := by
  refine ⟨(t.reverse.takeWhile isBlank).reverse, ?_, ?_⟩
  · intro c hc
    exact List.mem_takeWhile_imp (List.mem_reverse.mp hc)
  · rw [trimEnd, ← List.reverse_append, List.takeWhile_append_dropWhile, List.reverse_reverse]

theorem trimEnd_append_blank (h : Blank gap) : trimEnd (t ++ gap) = trimEnd t := by
  have hGap : ∀ c ∈ gap.reverse, isBlank c = true := fun c hc => h c (List.mem_reverse.mp hc)
  rw [trimEnd, List.reverse_append, List.dropWhile_append_of_pos hGap, trimEnd]

/-- No blanks stand after a text that ends where its end is trimmed. -/
theorem eq_nil_of_trimEnd_append (h : Blank gap) (hTrim : trimEnd (t ++ gap) = t ++ gap) :
    gap = [] := by
  rw [trimEnd_append_blank h] at hTrim
  obtain ⟨rest, -, ht⟩ := exists_trimEnd t
  rw [hTrim, List.append_assoc] at ht
  exact (List.append_eq_nil_iff.mp (List.self_eq_append_right.mp ht)).1

/-- Trimming the end goes no further than the last character that is not blank. -/
theorem trimEnd_append_cons (h : isBlank c = false) (a t : Text) :
    trimEnd (a ++ c :: t) = a ++ c :: trimEnd t := by
  have hStop : (c :: a.reverse).dropWhile isBlank = c :: a.reverse := by
    simp [h]
  simp only [trimEnd, List.reverse_append, List.reverse_cons, List.append_assoc,
    List.cons_append, List.nil_append, List.dropWhile_append, hStop]
  split
  · rename_i hEmpty
    rw [List.isEmpty_iff] at hEmpty
    simp [hEmpty]
  · simp

theorem trimEnd_append_of_solid (h : Solid w) (t : Text) : trimEnd (w ++ t) = w ++ trimEnd t := by
  rcases List.eq_nil_or_concat w with rfl | ⟨w, c, rfl⟩
  · rfl
  · have hc : isBlank c = false := h c (by simp)
    simpa using trimEnd_append_cons hc w t

theorem trimEnd_of_solid (h : Solid w) : trimEnd w = w := by
  simpa [trimEnd] using trimEnd_append_of_solid h []

theorem trimEnd_trimEnd (t : Text) : trimEnd (trimEnd t) = trimEnd t := by
  obtain ⟨gap, hGap, ht⟩ := exists_trimEnd t
  calc trimEnd (trimEnd t) = trimEnd (trimEnd t ++ gap) := (trimEnd_append_blank hGap).symm
    _ = trimEnd t := by rw [← ht]

theorem skipBlanks_cons (h : isBlank c = false) (t : Text) : skipBlanks (c :: t) = c :: t := by
  simp [skipBlanks, h]

theorem trim_cons (h : isBlank c = false) (t : Text) : trim (c :: t) = c :: trimEnd t := by
  rw [trim, skipBlanks_cons h]
  exact trimEnd_append_cons h [] t

/-- Trimming a text without blanks changes nothing. -/
theorem trim_of_solid (h : Solid w) : trim w = w := by
  rcases w with _ | ⟨c, w⟩
  · rfl
  · have hRest : Solid w := fun x hx => h x (List.mem_cons_of_mem c hx)
    rw [trim_cons (h c List.mem_cons_self), trimEnd_of_solid hRest]

/-- Trimming keeps what a text opens with, if it has no blanks. -/
theorem trim_append_of_solid (h : Solid w) (hSome : w ≠ []) (t : Text) :
    trim (w ++ t) = w ++ trimEnd t := by
  obtain ⟨c, w, rfl⟩ := List.exists_cons_of_ne_nil hSome
  have hRest : Solid w := fun x hx => h x (List.mem_cons_of_mem c hx)
  rw [List.cons_append, trim_cons (h c List.mem_cons_self), trimEnd_append_of_solid hRest,
    List.cons_append]

theorem BlankNext.trimEnd (h : BlankNext rest) : BlankNext (trimEnd rest) := by
  obtain ⟨gap, -, hRest⟩ := exists_trimEnd rest
  rw [hRest] at h
  exact h.of_append

/-- A trimmed text is empty or opens with a character that is not blank. -/
theorem trim_cases (t : Text) :
    trim t = [] ∨ ∃ c rest, isBlank c = false ∧ trim t = c :: trimEnd rest := by
  rw [trim]
  rcases hSkip : skipBlanks t with _ | ⟨c, rest⟩
  · exact Or.inl rfl
  · have hc : isBlank c = false := by
      have hHead := List.head?_dropWhile_not isBlank t
      rw [← skipBlanks, hSkip] at hHead
      simpa using hHead
    exact Or.inr ⟨c, rest, hc, trimEnd_append_cons hc [] rest⟩

theorem trim_trim (t : Text) : trim (trim t) = trim t := by
  rcases trim_cases t with hEmpty | ⟨c, rest, hc, hCons⟩
  · rw [hEmpty, trim_nil]
  · rw [hCons, trim_cons hc, trimEnd_trimEnd]

/-- A trimmed text ends where its end is trimmed. -/
theorem trimEnd_of_trim (h : trim t = t) : trimEnd t = t := by
  rw [← h, trim, trimEnd_trimEnd]

/-- Trimming takes a run of blanks off either side. -/
theorem exists_trim (t : Text) :
    ∃ lead gap, Blank lead ∧ Blank gap ∧ t = lead ++ (trim t ++ gap) := by
  obtain ⟨gap, hGap, hEnd⟩ := exists_trimEnd (skipBlanks t)
  refine ⟨t.takeWhile isBlank, gap, fun c hc => List.mem_takeWhile_imp hc, hGap, ?_⟩
  calc t = t.takeWhile isBlank ++ skipBlanks t := List.takeWhile_append_dropWhile.symm
    _ = t.takeWhile isBlank ++ (trim t ++ gap) := congrArg (t.takeWhile isBlank ++ ·) hEnd

theorem trim_blank_append {lead : Text} (h : Blank lead) (t : Text) :
    trim (lead ++ t) = trim t := by
  unfold trim skipBlanks
  rw [List.dropWhile_append_of_pos h]

theorem trim_append_blank (h : Blank gap) : trim (t ++ gap) = trim t := by
  induction t with
  | nil => simpa using trim_blank_append h []
  | cons c t ih =>
      by_cases hc : isBlank c = true
      · have hOne : Blank [c] := by simpa [Blank] using hc
        calc trim (c :: t ++ gap) = trim (t ++ gap) := trim_blank_append hOne (t ++ gap)
          _ = trim t := ih
          _ = trim (c :: t) := (trim_blank_append hOne t).symm
      · rw [Bool.not_eq_true] at hc
        rw [List.cons_append, trim_cons hc, trim_cons hc, trimEnd_append_blank h]

/-! ### Words -/

theorem words_append_cons (hc : isBlank c = true) (s t : Text) :
    words (s ++ c :: t) = words s ++ words t := by
  unfold words
  rw [List.splitOnP_append_cons s t hc, List.filter_append]

theorem words_cons_blank (hc : isBlank c = true) (t : Text) : words (c :: t) = words t := by
  simpa [words, List.splitOnP_nil] using words_append_cons hc [] t

theorem words_of_solid (hw : Solid w) (hSome : w ≠ []) : words w = [w] := by
  rw [words, List.splitOnP_eq_singleton hw]
  simp [hSome]

theorem words_append_of_blankNext (hw : Solid w) (hSome : w ≠ []) (hRest : BlankNext rest) :
    words (w ++ rest) = w :: words rest := by
  rcases rest with _ | ⟨c, rest⟩
  · rw [List.append_nil, words_of_solid hw hSome]
    simp [words, List.splitOnP_nil]
  · have hc : isBlank c = true := hRest c rfl
    rw [words_append_cons hc, words_of_solid hw hSome, words_cons_blank hc, List.singleton_append]

/-- A word opens at the first character that is not blank and goes on to the next blank. -/
theorem words_cons_of_not_blank (hc : isBlank c = false) (t : Text) :
    ∃ w rest, c :: t = w ++ rest ∧ Solid w ∧ w ≠ [] ∧ BlankNext rest ∧
      words (c :: t) = w :: words rest := by
  have hSplit : (c :: t).takeWhile (fun x => !isBlank x) ++
      (c :: t).dropWhile (fun x => !isBlank x) = c :: t :=
    List.takeWhile_append_dropWhile
  have hSolid : Solid ((c :: t).takeWhile fun x => !isBlank x) := by
    intro x hx
    simpa using List.mem_takeWhile_imp hx
  have hSome : ((c :: t).takeWhile fun x => !isBlank x) ≠ [] := by
    simp [hc]
  have hNext : BlankNext ((c :: t).dropWhile fun x => !isBlank x) := by
    intro x hx
    have hHead := List.head?_dropWhile_not (fun x => !isBlank x) (c :: t)
    rw [Option.mem_def.mp hx] at hHead
    simpa using hHead
  refine ⟨_, _, hSplit.symm, hSolid, hSome, hNext, ?_⟩
  conv_lhs => rw [← hSplit]
  exact words_append_of_blankNext hSolid hSome hNext

/-- Where the first word of a text stands. -/
theorem exists_of_words_cons {ws : List Text} (h : words t = w :: ws) :
    ∃ gap rest, t = gap ++ (w ++ rest) ∧ Blank gap ∧ Solid w ∧ w ≠ [] ∧ BlankNext rest ∧
      words rest = ws := by
  induction t with
  | nil => simp [words, List.splitOnP_nil] at h
  | cons c t ih =>
      by_cases hc : isBlank c = true
      · rw [words_cons_blank hc] at h
        obtain ⟨gap, rest, rfl, hGap, hWord⟩ := ih h
        refine ⟨c :: gap, rest, rfl, ?_, hWord⟩
        simpa [Blank, hc] using hGap
      · obtain ⟨w', rest, hText, hSolid, hSome, hNext, hWords⟩ :=
          words_cons_of_not_blank (by simpa using hc) t
        rw [hWords] at h
        obtain ⟨rfl, rfl⟩ := List.cons.inj h
        exact ⟨[], rest, hText, by simp [Blank], hSolid, hSome, hNext, rfl⟩

/-- A text has a word unless it is blank. -/
theorem words_eq_nil_iff : words t = [] ↔ Blank t := by
  induction t with
  | nil => simp [words, List.splitOnP_nil, Blank]
  | cons c t ih =>
      by_cases hc : isBlank c = true
      · simpa [words_cons_blank hc, Blank, hc] using ih
      · obtain ⟨w, rest, -, -, -, -, hWords⟩ := words_cons_of_not_blank (by simpa using hc) t
        simp [hWords, Blank, hc]

theorem words_append_blank (h : Blank gap) : words (t ++ gap) = words t := by
  rcases gap with _ | ⟨c, gap⟩
  · rw [List.append_nil]
  · have hGap : Blank gap := fun x hx => h x (List.mem_cons_of_mem _ hx)
    rw [words_append_cons (h c List.mem_cons_self), words_eq_nil_iff.mpr hGap, List.append_nil]

/-- A text that ends where it is trimmed has a word after each of its blanks. -/
theorem words_ne_nil_of_trimEnd (h : trimEnd (w ++ c :: t) = w ++ c :: t)
    (hc : isBlank c = true) : words t ≠ [] := by
  rw [ne_eq, words_eq_nil_iff]
  intro hBlank
  have hGap : Blank (c :: t) := by
    simpa [Blank, hc] using hBlank
  rw [trimEnd_append_blank hGap] at h
  obtain ⟨gap, -, hw⟩ := exists_trimEnd w
  have hLength := congrArg List.length hw
  rw [h] at hLength
  simp at hLength

/-! ### The first cut -/

variable {p : Char → Bool} {a b : Text}

/-- A cut is not moved by a text before it without separators. -/
theorem cutAt_append_left (h : ∀ x ∈ a, p x = false) (t : Text) :
    cutAt p (a ++ t) = (cutAt p t).map fun sides => (a ++ sides.1, sides.2) := by
  induction a with
  | nil => simp
  | cons c a ih =>
      have hRest := ih fun x hx => h x (List.mem_cons_of_mem c hx)
      rw [List.cons_append, cutAt, h c List.mem_cons_self, hRest]
      simp [Function.comp_def]

/-- Nor is it moved by a text after it, which goes to the right side. -/
theorem cutAt_append_right (h : ∀ x ∈ b, p x = false) (t : Text) :
    cutAt p (t ++ b) = (cutAt p t).map fun sides => (sides.1, sides.2 ++ b) := by
  induction t with
  | nil => simpa [cutAt] using cutAt_eq_none_iff.mpr h
  | cons c t ih =>
      rw [List.cons_append, cutAt, cutAt, ih]
      by_cases hc : p c = true
      · simp [hc]
      · simp [hc, Function.comp_def]

/-! ### The last cut -/

theorem cutAtLast_eq_none_iff : cutAtLast p t = none ↔ ∀ c ∈ t, p c = false := by
  induction t with
  | nil => simp [cutAtLast]
  | cons c t ih =>
      rw [cutAtLast]
      cases hCut : cutAtLast p t with
      | none =>
          have hRest := ih.mp hCut
          by_cases hc : p c = true
          · simp [hc]
          · simpa [hc] using hRest
      | some sides =>
          have hRest : ¬ ∀ c ∈ t, p c = false := by
            rw [← ih, hCut]
            simp
          simpa using fun _ => by simpa using hRest

theorem cutAtLast_append_cons (hc : p c = true) (hb : ∀ x ∈ b, p x = false) :
    cutAtLast p (a ++ c :: b) = some (a, b) := by
  induction a with
  | nil =>
      rw [List.nil_append, cutAtLast, cutAtLast_eq_none_iff.mpr hb]
      simp [hc]
  | cons x a ih => rw [List.cons_append, cutAtLast, ih]

theorem exists_of_cutAtLast (h : cutAtLast p t = some (a, b)) :
    ∃ c, p c = true ∧ t = a ++ c :: b ∧ ∀ x ∈ b, p x = false := by
  induction t generalizing a b with
  | nil => simp [cutAtLast] at h
  | cons x t ih =>
      rw [cutAtLast] at h
      cases hCut : cutAtLast p t with
      | none =>
          rw [hCut] at h
          by_cases hx : p x = true
          · simp [hx] at h
            obtain ⟨rfl, rfl⟩ := h
            exact ⟨x, hx, rfl, cutAtLast_eq_none_iff.mp hCut⟩
          · simp [hx] at h
      | some sides =>
          rw [hCut] at h
          obtain ⟨c, hc, rfl, hb⟩ := ih hCut
          obtain ⟨rfl, rfl⟩ := Prod.mk.inj (Option.some.inj h)
          exact ⟨c, hc, rfl, hb⟩

end TableTalk.Text

/-! ### Letters -/

namespace TableTalk

/-- The case of a letter is the only thing `toLower` changes. -/
theorem toLower_cases (c : Char) :
    c.toLower = c ∨ 65 ≤ c.toNat ∧ c.toNat ≤ 90 ∧ c.toLower.toNat = c.toNat + 32 := by
  unfold Char.toLower
  split
  · rename_i hUpper
    have hLe : c.val.toNat ≤ 90 := hUpper.2
    have hShift : ('a'.val - 'A'.val).toNat = 32 := by decide
    refine Or.inr ⟨hUpper.1, hUpper.2, ?_⟩
    change (c.val + ('a'.val - 'A'.val)).toNat = c.val.toNat + 32
    rw [UInt32.toNat_add, hShift]
    omega
  · exact Or.inl rfl

/-- A character that is no letter has no other case. -/
theorem toLower_eq_iff {c x : Char} (hx : x.toNat < 65) : c.toLower = x ↔ c = x := by
  rcases toLower_cases c with hSame | ⟨hLow, -, hShift⟩
  · rw [hSame]
  · constructor
    · rintro rfl
      omega
    · rintro rfl
      omega

theorem toLower_toLower (c : Char) : c.toLower.toLower = c.toLower := by
  rcases toLower_cases c with hSame | ⟨hLow, -, hShift⟩
  · rw [hSame, hSame]
  · rcases toLower_cases c.toLower with hSame | ⟨-, hHigh, -⟩
    · exact hSame
    · omega

end TableTalk
