import TableTalk.Proofs.Text.Bytes

/-!
# Operations that may fault

A text is cut by the numbers of bytes before the two ends of a piece.  That only has a result
if the ends are in order, within the text and on boundaries of characters; a list only has an
item, and room for a further one, up to its length.  Out of these domains such an operation
is a `Fault`, and a computation that uses it is `Checked`: it ends with the first fault.

* `Text.slice_eq_ok_iff` says what a slice is without counting bytes: what stands between two
  texts of these sizes.  `Text.exists_slice_iff` is the domain of slices.
* `Checked.exists_item_iff` and `Checked.exists_insertAt_iff` are the domains of positions.

The theories that follow write the handling of a message with these operations alone, and show
that it never leaves their domains.
-/

namespace TableTalk

/-- Ways to use an operation out of its domain. -/
inductive Fault where
  /-- A slice with its ends out of order, outside the text or within a character -/
  | slice
  /-- A position that a list does not have -/
  | position
  /-- A group that has no part in a match -/
  | group
  /-- A length of time that is not representable -/
  | range
deriving DecidableEq, Repr

/-- A result, unless there was a fault. -/
abbrev Checked (α : Type) : Type :=
  Except Fault α

namespace Text

variable {a b s t : Text} {c : Char} {i j n : ℕ}

/-- The number of bytes of a text. -/
def size (t : Text) : ℕ :=
  t.bytes.length

@[simp] theorem size_nil : size [] = 0 := rfl

theorem size_cons (c : Char) (t : Text) : size (c :: t) = (encoded c).length + size t := by
  unfold size
  rw [bytes_cons, List.length_append]

theorem size_append (a b : Text) : size (a ++ b) = size a + size b := by
  induction a with
  | nil => simp
  | cons c a ih => rw [List.cons_append, size_cons, size_cons, ih, Nat.add_assoc]

theorem encoded_length_pos (c : Char) : 0 < (encoded c).length :=
  List.length_pos_iff.mpr (encoded_ne_nil c)

/-- The characters of ASCII take one byte. -/
theorem encoded_length_of_le (h : c.toNat ≤ 127) : (encoded c).length = 1 := by
  rw [encoded_eq, if_pos h]
  rfl

theorem size_eq_zero_iff : size t = 0 ↔ t = [] := by
  cases t with
  | nil => simp
  | cons c t =>
      have hPos := encoded_length_pos c
      have hSize : size (c :: t) ≠ 0 := by
        rw [size_cons]
        omega
      simp [hSize]

/-- The two sides of a number of bytes, if a character begins or the text ends there. -/
def sidesAt? : ℕ → Text → Option (Text × Text)
  | 0, t => some ([], t)
  | _ + 1, [] => none
  | n + 1, c :: t =>
      if (encoded c).length ≤ n + 1 then
        (sidesAt? (n + 1 - (encoded c).length) t).map fun sides => (c :: sides.1, sides.2)
      else none

/-- Sides are texts that make up the whole, the left one of the given size. -/
theorem sidesAt?_eq_some_iff : sidesAt? n t = some (a, b) ↔ t = a ++ b ∧ a.size = n := by
  fun_induction sidesAt? n t generalizing a b with
  | case1 t =>
      rw [size_eq_zero_iff, Option.some_inj, Prod.mk.injEq]
      constructor
      · rintro ⟨rfl, rfl⟩
        exact ⟨rfl, rfl⟩
      · rintro ⟨rfl, rfl⟩
        exact ⟨rfl, rfl⟩
  | case2 n =>
      refine iff_of_false (by simp) fun ⟨hText, hSize⟩ => ?_
      rw [(List.append_eq_nil_iff.mp hText.symm).1, size_nil] at hSize
      cases hSize
  | case3 n c t hFits ih =>
      simp only [Option.map_eq_some_iff, Prod.exists, ih, Prod.mk.injEq]
      constructor
      · rintro ⟨a, b, ⟨rfl, hSize⟩, rfl, rfl⟩
        refine ⟨rfl, ?_⟩
        rw [size_cons, hSize]
        omega
      · rintro ⟨hText, hSize⟩
        rcases a with _ | ⟨x, a⟩
        · cases hSize
        · obtain ⟨rfl, hRest⟩ := List.cons.inj hText
          rw [size_cons] at hSize
          exact ⟨a, b, ⟨hRest, by omega⟩, rfl, rfl⟩
  | case4 n c t hFits =>
      refine iff_of_false (by simp) fun ⟨hText, hSize⟩ => hFits ?_
      rcases a with _ | ⟨x, a⟩
      · cases hSize
      · obtain ⟨rfl, -⟩ := List.cons.inj hText
        rw [size_cons] at hSize
        omega

/-- A place of the text that is not within a character. -/
def IsBoundary (t : Text) (n : ℕ) : Prop :=
  ∃ a b, t = a ++ b ∧ a.size = n

/-- The slice of a text from one number of bytes to another. -/
def slice (t : Text) (i j : ℕ) : Checked Text :=
  match sidesAt? j t with
  | none => .error .slice
  | some (front, _) =>
      match sidesAt? i front with
      | none => .error .slice
      | some (_, piece) => .ok piece

/-- A slice is what stands between a text of the first size and the rest. -/
theorem slice_eq_ok_iff :
    slice t i j = .ok s ↔ ∃ a b, t = a ++ s ++ b ∧ a.size = i ∧ (a ++ s).size = j := by
  unfold slice
  constructor
  · intro h
    split at h
    · cases h
    · rename_i front back hFront
      obtain ⟨rfl, hj⟩ := sidesAt?_eq_some_iff.mp hFront
      split at h
      · cases h
      · rename_i before piece hPiece
        obtain ⟨rfl, hi⟩ := sidesAt?_eq_some_iff.mp hPiece
        obtain rfl := Except.ok.inj h
        exact ⟨before, back, rfl, hi, hj⟩
  · rintro ⟨a, b, rfl, hi, hj⟩
    rw [sidesAt?_eq_some_iff.mpr ⟨rfl, hj⟩]
    dsimp only
    rw [sidesAt?_eq_some_iff.mpr ⟨rfl, hi⟩]

/-- The slice between two texts is what stands there. -/
theorem slice_append (a s b : Text) : slice (a ++ s ++ b) a.size (a ++ s).size = .ok s :=
  slice_eq_ok_iff.mpr ⟨a, b, rfl, rfl, rfl⟩

theorem slice_from (a s : Text) : slice (a ++ s) a.size (a ++ s).size = .ok s := by
  simpa using slice_append a s []

/-- Behind a separator there is what follows it. -/
theorem slice_after (a sep s : Text) :
    slice (a ++ (sep ++ s)) (a.size + sep.size) (size (a ++ (sep ++ s))) = .ok s := by
  rw [← List.append_assoc, ← size_append]
  exact slice_from (a ++ sep) s

theorem slice_to (s b : Text) : slice (s ++ b) 0 s.size = .ok s := by
  simpa using slice_append [] s b

theorem isBoundary_size (a b : Text) : IsBoundary (a ++ b) a.size :=
  ⟨a, b, rfl, rfl⟩

/-- There is a slice exactly between two boundaries in order. -/
theorem exists_slice_iff :
    (∃ s, slice t i j = .ok s) ↔ i ≤ j ∧ IsBoundary t i ∧ IsBoundary t j := by
  constructor
  · rintro ⟨s, hs⟩
    obtain ⟨a, b, rfl, rfl, rfl⟩ := slice_eq_ok_iff.mp hs
    refine ⟨?_, ⟨a, s ++ b, by simp, rfl⟩, isBoundary_size (a ++ s) b⟩
    rw [size_append]
    exact Nat.le_add_right _ _
  · rintro ⟨hOrder, ⟨a, b, rfl, rfl⟩, ⟨front, back, hText, rfl⟩⟩
    -- The left sides are prefixes of one text, so that the smaller one opens the other.
    rcases List.append_eq_append_iff.mp hText with ⟨s, rfl, rfl⟩ | ⟨s, rfl, rfl⟩
    · exact ⟨s, by simpa using slice_append a s back⟩
    · rw [size_append] at hOrder
      obtain rfl := size_eq_zero_iff.mp (by omega : size s = 0)
      exact ⟨[], by simpa using slice_append front [] b⟩

/-- The number of bytes before a cut. -/
def offset (cut : Option (Text × Text)) : Option ℕ :=
  cut.map fun sides => sides.1.size

end Text

namespace Checked

variable {α : Type} {x : α} {xs : List α} {i : ℕ}

/-- The item of a list at a position. -/
def item (xs : List α) (i : ℕ) : Checked α :=
  match xs[i]? with
  | some x => .ok x
  | none => .error .position

theorem item_eq_ok_iff : item xs i = .ok x ↔ xs[i]? = some x := by
  unfold item
  cases xs[i]? with
  | none => simp
  | some y => simp

theorem exists_item_iff : (∃ x, item xs i = .ok x) ↔ i < xs.length := by
  constructor
  · rintro ⟨x, hx⟩
    obtain ⟨hLess, -⟩ := List.getElem?_eq_some_iff.mp (item_eq_ok_iff.mp hx)
    exact hLess
  · intro hLess
    exact ⟨xs[i], item_eq_ok_iff.mpr (List.getElem?_eq_getElem hLess)⟩

/-- The list with a further item at a position. -/
def insertAt (xs : List α) (i : ℕ) (x : α) : Checked (List α) :=
  if i ≤ xs.length then .ok (xs.insertIdx i x) else .error .position

theorem insertAt_eq_ok (h : i ≤ xs.length) : insertAt xs i x = .ok (xs.insertIdx i x) :=
  if_pos h

theorem exists_insertAt_iff : (∃ ys, insertAt xs i x = .ok ys) ↔ i ≤ xs.length := by
  by_cases h : i ≤ xs.length
  · exact iff_of_true ⟨_, insertAt_eq_ok h⟩ h
  · simp [insertAt, h]

@[simp] theorem ok_bind {β : Type} (a : α) (f : α → Checked β) :
    (Except.ok a : Checked α) >>= f = f a := rfl

/-- A fold that may be refused at any item, for a cause that is no fault. -/
def fold {β ε : Type} (f : β → α → Checked (Except ε β)) : β → List α → Checked (Except ε β)
  | b, [] => return .ok b
  | b, x :: xs => do
      match ← f b x with
      | .error e => return .error e
      | .ok b => fold f b xs

theorem fold_eq_ok_foldlM {β ε : Type} {f : β → α → Checked (Except ε β)}
    {g : β → α → Except ε β} (h : ∀ b x, f b x = .ok (g b x)) (b : β) (xs : List α) :
    fold f b xs = .ok (xs.foldlM g b) := by
  induction xs generalizing b with
  | nil => rfl
  | cons x xs ih =>
      rw [fold, h, ok_bind, List.foldlM_cons]
      cases g b x with
      | error e => rfl
      | ok b => exact ih b

end Checked

end TableTalk
