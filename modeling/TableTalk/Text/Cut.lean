import TableTalk.Text.Blank

/-!
# Cutting a text in two

The command syntax is a handful of cuts: at the first character of a kind, at
the last blank, at the first place where a given piece stands.  Each cut returns
the two sides without the separator, and the whole text is the left side, the
separator and the right side again.
-/

namespace TableTalk.Text

/-- The two sides of the first character satisfying `p`. -/
def cutAt (p : Char → Bool) : Text → Option (Text × Text)
  | [] => none
  | c :: rest =>
      if p c then some ([], rest)
      else (cutAt p rest).map fun sides => (c :: sides.1, sides.2)

/-- The two sides of the last character satisfying `p`. -/
def cutAtLast (p : Char → Bool) : Text → Option (Text × Text)
  | [] => none
  | c :: rest =>
      match cutAtLast p rest with
      | some sides => some (c :: sides.1, sides.2)
      | none => if p c then some ([], rest) else none

/-- What follows `piece` in a text that opens with it. -/
def after? : Text → Text → Option Text
  | [], t => some t
  | _ :: _, [] => none
  | p :: piece, c :: t => if p = c then after? piece t else none

/-- The two sides of the first occurrence of `piece`. -/
def cutAtPiece (piece : Text) : Text → Option (Text × Text)
  | [] => (after? piece []).map fun rest => ([], rest)
  | c :: t =>
      match after? piece (c :: t) with
      | some rest => some ([], rest)
      | none => (cutAtPiece piece t).map fun sides => (c :: sides.1, sides.2)

/-- Join texts with a separator between neighbours. -/
def join (sep : Text) (pieces : List Text) : Text :=
  sep.intercalate pieces

/-- A separator stands before every piece but the first. -/
theorem join_cons (sep x : Text) (xs : List Text) :
    join sep (x :: xs) = x ++ xs.flatMap (sep ++ ·) := by
  induction xs generalizing x with
  | nil => simp [join]
  | cons y ys ih =>
      have hRest := ih y
      unfold join at hRest ⊢
      rw [List.intercalate_cons_cons, hRest, List.flatMap_cons, List.append_assoc,
        List.append_assoc]

/-- Only an empty list joins to nothing, if no piece is empty. -/
theorem join_eq_nil_iff {sep : Text} {pieces : List Text} (h : [] ∉ pieces) :
    join sep pieces = [] ↔ pieces = [] := by
  cases pieces with
  | nil => exact iff_of_true rfl rfl
  | cons x xs =>
      refine iff_of_false (fun hNil => h ?_) (List.cons_ne_nil x xs)
      rw [join_cons, List.append_eq_nil_iff] at hNil
      exact List.mem_cons.mpr (Or.inl hNil.1.symm)

theorem after?_append (piece t : Text) : after? piece (piece ++ t) = some t := by
  induction piece with
  | nil => rfl
  | cons c piece ih => simp [after?, ih]

theorem eq_append_of_after? {piece t rest : Text} (h : after? piece t = some rest) :
    t = piece ++ rest := by
  fun_induction after? piece t with
  | case1 t => simpa using h
  | case2 => simp at h
  | case3 piece c t ih => simp [ih h]
  | case4 => simp at h

/-- A cut loses nothing: the separator stands between the two sides. -/
theorem exists_of_cutAt {p : Char → Bool} {t a b : Text} (h : cutAt p t = some (a, b)) :
    ∃ c, p c = true ∧ t = a ++ c :: b ∧ ∀ x ∈ a, p x = false := by
  induction t generalizing a b with
  | nil => simp [cutAt] at h
  | cons c rest ih =>
      by_cases hc : p c = true
      · simp [cutAt, hc] at h
        obtain ⟨rfl, rfl⟩ := h
        exact ⟨c, hc, rfl, by simp⟩
      · simp [cutAt, hc] at h
        obtain ⟨a', hcut, rfl⟩ := h
        obtain ⟨x, hx, rfl, hall⟩ := ih hcut
        exact ⟨x, hx, rfl, by simpa [hc] using hall⟩

/-- There is no cut exactly when no character qualifies. -/
theorem cutAt_eq_none_iff {p : Char → Bool} {t : Text} :
    cutAt p t = none ↔ ∀ c ∈ t, p c = false := by
  induction t with
  | nil => simp [cutAt]
  | cons c rest ih => by_cases hc : p c = true <;> simp [cutAt, hc, ih]

/-- The first qualifying character decides where the cut falls. -/
theorem cutAt_append_cons {p : Char → Bool} {a : Text} {c : Char} {b : Text}
    (ha : ∀ x ∈ a, p x = false) (hc : p c = true) : cutAt p (a ++ c :: b) = some (a, b) := by
  induction a with
  | nil => simp [cutAt, hc]
  | cons x a ih =>
      have hx : p x = false := ha x (by simp)
      simp [cutAt, hx, ih fun y hy => ha y (by simp [hy])]

end TableTalk.Text
