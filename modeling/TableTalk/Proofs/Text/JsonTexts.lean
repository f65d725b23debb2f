import Mathlib.Data.List.Basic
import TableTalk.Json

/-!
# Lists of texts in JSON

The options of a column are kept as one text, a JSON list of strings.  Whatever the texts are,
quotes, control characters and all, the list that is written is read back as it was
(`Json.texts?_read_writeTexts`).

The reader takes a string off the front of a text and leaves the rest alone, so each part
is read with anything behind it: a character (`Json.takeUnits_writeChar_append`), a
string (`Json.takeValue?_writeText_append`), and the items of a list by induction.
-/

namespace TableTalk.Json

/-! ### Strings -/

theorem hexDigit?_digitChar : ∀ d < 16, hexDigit? (Nat.digitChar d) = some d := by
  decide

/-- A short escape is read as its character. -/
theorem takeUnits_escape {e c : Char} (h : shortEscape? e = some c) (rest : Text) :
    takeUnits ('\\' :: e :: rest) = (takeUnits rest).map fun r => (c.toNat :: r.1, r.2) := by
  have hOther : e ≠ 'u' := by
    rintro rfl
    cases h
  rw [takeUnits.eq_def]
  cases hRest : takeUnits rest <;> simp [hOther, h, hRest]

/-- A character is read as its code point, however it is written. -/
theorem takeUnits_writeChar_append (c : Char) (rest : Text) :
    takeUnits (writeChar c ++ rest) = (takeUnits rest).map fun r => (c.toNat :: r.1, r.2) := by
  unfold writeChar
  split_ifs with hQuote hBackslash hBack hForm hNewline hReturn hTab hControl
  · subst hQuote
    exact takeUnits_escape rfl rest
  · subst hBackslash
    exact takeUnits_escape rfl rest
  · subst hBack
    exact takeUnits_escape rfl rest
  · subst hForm
    exact takeUnits_escape rfl rest
  · subst hNewline
    exact takeUnits_escape rfl rest
  · subst hReturn
    exact takeUnits_escape rfl rest
  · subst hTab
    exact takeUnits_escape rfl rest
  · have hZero : hexDigit? '0' = some 0 := by rfl
    have hHigh := hexDigit?_digitChar (c.toNat / 16) (by omega)
    have hLow := hexDigit?_digitChar (c.toNat % 16) (by omega)
    have hCode : (0 * 16 + 0) * 256 + (c.toNat / 16 * 16 + c.toNat % 16) = c.toNat := by omega
    simp only [List.cons_append, List.nil_append]
    rw [takeUnits, hZero, hHigh, hLow]
    cases takeUnits rest with
    | none => rfl
    | some r =>
        simp only [Option.bind_eq_bind, Option.bind_some, hCode]
        rfl
  · simp only [List.cons_append, List.nil_append]
    rw [takeUnits.eq_def]
    simp [hBackslash, hControl]

theorem takeUnits_flatMap_writeChar (t rest : Text) :
    takeUnits (t.flatMap writeChar ++ '"' :: rest) = some (t.map Char.toNat, rest) := by
  induction t with
  | nil => rfl
  | cons c t ih =>
      rw [List.flatMap_cons, List.append_assoc, takeUnits_writeChar_append, ih]
      rfl

/-- Code points of characters are no halves of pairs. -/
theorem not_half (c : Char) : ¬ (0xD800 ≤ c.toNat ∧ c.toNat ≤ 0xDFFF) := by
  rintro ⟨hLow, hHigh⟩
  rcases c.valid with hValid | ⟨hValid, -⟩
  · exact absurd hValid (by
      change ¬ c.toNat < 0xD800
      omega)
  · exact absurd hValid (by
      change ¬ 0xDFFF < c.toNat
      omega)

/-- Code points spell their characters. -/
theorem ofUnits?_map_toNat (t : Text) : ofUnits? (t.map Char.toNat) = some t := by
  induction t with
  | nil => rfl
  | cons c t ih =>
      have hHalf := not_half c
      cases t with
      | nil =>
          change (if 0xD800 ≤ c.toNat ∧ c.toNat ≤ 0xDFFF then none
            else some [Char.ofNat c.toNat]) = some [c]
          rw [if_neg hHalf, Char.ofNat_toNat]
      | cons d t =>
          have hHigh : ¬ (0xD800 ≤ c.toNat ∧ c.toNat ≤ 0xDBFF) := by omega
          have hLow : ¬ (0xDC00 ≤ c.toNat ∧ c.toNat ≤ 0xDFFF) := by omega
          rw [List.map_cons] at ih
          rw [List.map_cons, List.map_cons, ofUnits?, if_neg hHigh, if_neg hLow, ih,
            Char.ofNat_toNat]
          rfl

theorem takeString?_append (t rest : Text) :
    takeString? (t.flatMap writeChar ++ '"' :: rest) = some (some t, rest) := by
  unfold takeString?
  rw [takeUnits_flatMap_writeChar, Option.map_some, ofUnits?_map_toNat]

/-! ### Lists -/

/-- A string is read as its text. -/
theorem takeValue?_writeText_append (depth : Nat) (t rest : Text) :
    takeValue? (depth + 1) (writeText t ++ rest) = some (string (some t), rest) := by
  have hWritten : writeText t ++ rest = '"' :: (t.flatMap writeChar ++ '"' :: rest) := by
    unfold writeText
    simp
  have hSpace (s : Text) : skipSpace ('"' :: s) = '"' :: s := by rfl
  rw [hWritten, takeValue?, hSpace]
  change (takeString? (t.flatMap writeChar ++ '"' :: rest)).map _ = _
  rw [takeString?_append]
  rfl

/-- The items of a list are read one by one, up to the closing bracket. -/
theorem takeItems?_append (t : Text) (ts : List Text) (depth : Nat) (h : ts.length < depth)
    (rest : Text) :
    takeItems? (depth + 1) ([','].intercalate ((t :: ts).map writeText) ++ ']' :: rest) =
      some ((t :: ts).map fun t => string (some t), rest) := by
  induction ts generalizing t depth with
  | nil =>
      obtain ⟨depth, rfl⟩ := Nat.exists_eq_succ_of_ne_zero (Nat.ne_zero_of_lt h)
      have hSpace : skipSpace (']' :: rest) = ']' :: rest := by rfl
      rw [List.map_singleton, List.intercalate_singleton, takeItems?,
        takeValue?_writeText_append]
      simp only [Option.bind_eq_bind, Option.bind_some, hSpace]
      rfl
  | cons u ts ih =>
      obtain ⟨depth, rfl⟩ := Nat.exists_eq_succ_of_ne_zero (Nat.ne_zero_of_lt h)
      have hRest := ih u depth (Nat.lt_of_succ_lt_succ h)
      have hSpace (s : Text) : skipSpace (',' :: s) = ',' :: s := by rfl
      rw [List.map_cons, List.map_cons, List.intercalate_cons_cons, List.append_assoc,
        List.append_assoc, takeItems?, takeValue?_writeText_append]
      simp only [Option.bind_eq_bind, Option.bind_some, List.cons_append, List.nil_append, hSpace]
      rw [List.map_cons] at hRest
      rw [hRest]
      rfl

theorem length_le_length_intercalate (ts : List Text) :
    ts.length ≤ ([','].intercalate (ts.map writeText)).length := by
  induction ts with
  | nil => exact Nat.le_refl _
  | cons t ts ih =>
      cases ts with
      | nil => simp [writeText]
      | cons u ts =>
          rw [List.map_cons] at ih
          rw [List.map_cons, List.map_cons, List.intercalate_cons_cons]
          simp only [List.length_append, List.length_cons, List.length_nil] at ih ⊢
          omega

/-- A list is read as the strings of its texts, if there is depth enough for its items. -/
theorem takeValue?_writeTexts (ts : List Text) (depth : Nat) (h : ts.length < depth) :
    takeValue? (depth + 1) (writeTexts ts) = some (array (ts.map fun t => string (some t)), []) := by
  cases ts with
  | nil => rfl
  | cons t ts =>
      obtain ⟨depth, rfl⟩ := Nat.exists_eq_succ_of_ne_zero (Nat.ne_zero_of_lt h)
      have hItems := takeItems?_append t ts depth (Nat.lt_of_succ_lt_succ h) []
      -- The first item opens with a quote, so the list is not the empty one.
      obtain ⟨rest, hQuote⟩ : ∃ rest,
          [','].intercalate ((t :: ts).map writeText) ++ [']'] = '"' :: rest := by
        cases ts <;> simp [writeText]
      have hOpens : skipSpace ('[' :: '"' :: rest) = '[' :: '"' :: rest := by rfl
      have hFirst : skipSpace ('"' :: rest) = '"' :: rest := by rfl
      unfold writeTexts
      rw [List.cons_append, hQuote, takeValue?, hOpens]
      simp only [hFirst]
      rw [hQuote] at hItems
      exact congrArg (Option.map _) hItems

/-- **A list of texts is read back** from what is written for it. -/
theorem texts?_read_writeTexts (ts : List Text) :
    (read (writeTexts ts)).bind texts? = some ts := by
  have hDepth : ts.length < 2 * (writeTexts ts).length + 1 := by
    have hItems := length_le_length_intercalate ts
    unfold writeTexts
    simp only [List.length_append, List.length_cons, List.length_nil]
    omega
  have hRead : read (writeTexts ts) = some (array (ts.map fun t => string (some t))) := by
    unfold read
    rw [takeValue?_writeTexts ts _ hDepth]
    rfl
  rw [hRead]
  change (ts.map fun t => string (some t)).mapM text? = some ts
  have hTexts : ts.mapM (fun t => text? (string (some t))) = some (ts.map id) :=
    List.mapM_pure
  rw [List.mapM_map]
  exact hTexts.trans (congrArg some (List.map_id ts))

end TableTalk.Json
