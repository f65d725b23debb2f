import TableTalk.Shortcut.Expansion
import TableTalk.Proofs.Command.Reading

/-!
# Shortcuts and what follows a message

A pattern whose last hole is at its end gives that hole all that is left of the text.  More
text at the end of a message therefore goes to the last key and to no other
(`Pattern.bind_append`): a literal that has been found is found in the same place, since
a later character cannot make an earlier place of it.

What becomes of the added text is up to the output pattern.  If the last key stands at its
end and nowhere else, the text is added to the end of the result; if the key does not
occur, the text is lost (`Shortcut.applyTo?_append`).  In any other place it ends up in the
middle.
-/

namespace TableTalk

/-! ### Finding a literal -/

namespace Text

variable {piece t a b rest : Text}

theorem length_of_after? (h : after? piece t = some rest) : piece.length ≤ t.length := by
  rw [eq_append_of_after? h, List.length_append]
  omega

/-- In a text that is long enough, what follows makes no difference. -/
theorem after?_append_of_length_le (h : piece.length ≤ t.length) (x : Text) :
    after? piece (t ++ x) = (after? piece t).map (· ++ x) := by
  induction piece generalizing t with
  | nil => rfl
  | cons p piece ih =>
      rcases t with _ | ⟨c, t⟩
      · simp at h
      · have hRest : piece.length ≤ t.length := by simpa using h
        by_cases hp : p = c
        · simp [after?, hp, ih hRest]
        · simp [after?, hp]

theorem length_of_cutAtPiece (h : cutAtPiece piece t = some (a, b)) :
    piece.length ≤ t.length := by
  induction t generalizing a b with
  | nil =>
      obtain ⟨rest, hAfter, -⟩ := Option.map_eq_some_iff.mp h
      exact length_of_after? hAfter
  | cons c t ih =>
      rw [cutAtPiece] at h
      split at h
      · rename_i rest hAfter
        exact length_of_after? hAfter
      · obtain ⟨sides, hCut, -⟩ := Option.map_eq_some_iff.mp h
        have hRest := ih hCut
        rw [List.length_cons]
        omega

/-- The first occurrence of a piece stays the first one when the text goes on. -/
theorem cutAtPiece_append (h : cutAtPiece piece t = some (a, b)) (x : Text) :
    cutAtPiece piece (t ++ x) = some (a, b ++ x) := by
  induction t generalizing a b with
  | nil =>
      obtain ⟨rest, hAfter, hSides⟩ := Option.map_eq_some_iff.mp h
      obtain ⟨rfl, rfl⟩ := Prod.mk.inj hSides
      obtain ⟨rfl, rfl⟩ := List.append_eq_nil_iff.mp (eq_append_of_after? hAfter).symm
      cases x <;> rfl
  | cons c t ih =>
      have hLong := after?_append_of_length_le (length_of_cutAtPiece h) x
      rw [List.cons_append] at hLong ⊢
      rw [cutAtPiece] at h ⊢
      rw [hLong]
      split at h
      · rename_i rest hAfter
        obtain ⟨rfl, rfl⟩ := Prod.mk.inj (Option.some.inj h)
        rw [hAfter]
        rfl
      · rename_i hAfter
        obtain ⟨sides, hCut, hSides⟩ := Option.map_eq_some_iff.mp h
        obtain ⟨rfl, rfl⟩ := Prod.mk.inj hSides
        rw [hAfter, Option.map_none]
        simp only [ih hCut, Option.map_some]

end Text

namespace Pattern

variable {holes : List (Text × Text)} {key t : Text} {bindings : List (Text × Text)}

/-! ### Binding -/

/-- The holes of a pattern end with a key that takes all that is left. -/
def EndsIn (holes : List (Text × Text)) (key : Text) : Prop :=
  ∃ front, holes = front ++ [(key, [])]

theorem bindHoles_append (h : bindHoles (holes ++ [(key, [])]) t = some bindings) (x : Text) :
    ∃ front v, bindings = front ++ [(key, v)] ∧
      bindHoles (holes ++ [(key, [])]) (t ++ x) = some (front ++ [(key, v ++ x)]) := by
  induction holes generalizing t bindings with
  | nil =>
      obtain rfl := Option.some.inj h
      exact ⟨[], t, rfl, rfl⟩
  | cons hole holes ih =>
      obtain ⟨k, literal⟩ := hole
      obtain ⟨next, more, hMore⟩ :=
        List.exists_cons_of_ne_nil (List.append_ne_nil_of_right_ne_nil holes
          (List.cons_ne_nil (key, ([] : Text)) []))
      rw [List.cons_append, hMore] at h ⊢
      rw [hMore] at ih
      rcases literal with _ | ⟨c, literal⟩
      · rw [bindHoles] at h ⊢
        · obtain ⟨rest, hRest, rfl⟩ := Option.map_eq_some_iff.mp h
          obtain ⟨front, v, rfl, hBind⟩ := ih hRest
          exact ⟨(k, []) :: front, v, rfl, by rw [hBind]; rfl⟩
        all_goals simp
      · rw [bindHoles] at h ⊢
        cases hCut : Text.cutAtPiece (c :: literal) t with
        | none =>
            rw [hCut] at h
            cases h
        | some sides =>
            obtain ⟨value, rest⟩ := sides
            rw [hCut] at h
            obtain ⟨bound, hRest, rfl⟩ := Option.map_eq_some_iff.mp h
            obtain ⟨front, v, rfl, hBind⟩ := ih hRest
            refine ⟨(k, value) :: front, v, rfl, ?_⟩
            rw [Text.cutAtPiece_append hCut]
            simp only [hBind]
            rfl

/-- More text at the end goes to the last key. -/
theorem bind_append {p : Pattern} (hEnds : EndsIn p.holes key) (h : p.bind t = some bindings)
    (x : Text) :
    ∃ front v, bindings = front ++ [(key, v)] ∧ p.bind (t ++ x) = some (front ++ [(key, v ++ x)]) := by
  obtain ⟨holes, hHoles⟩ := hEnds
  unfold bind at h ⊢
  rw [hHoles] at h ⊢
  obtain ⟨rest, hAfter, hRest⟩ := Option.bind_eq_some_iff.mp h
  obtain ⟨front, v, hBindings, hBind⟩ := bindHoles_append hRest x
  refine ⟨front, v, hBindings, ?_⟩
  rw [Text.after?_append_of_length_le (Text.length_of_after? hAfter), hAfter]
  exact hBind

/-! ### Filling -/

theorem valueOf_concat (front : List (Text × Text)) (key v k : Text) :
    valueOf (front ++ [(key, v)]) k = if k = key then some v else valueOf front k := by
  unfold valueOf
  rw [List.reverse_append, List.reverse_singleton, List.singleton_append, List.lookup_cons]
  by_cases hk : k = key
  · simp [hk]
  · simp [hk, beq_eq_false_iff_ne.mpr hk]

theorem fillHoles_congr {f g : Text → Option Text} (h : ∀ hole ∈ holes, f hole.1 = g hole.1) :
    fillHoles f holes = fillHoles g holes := by
  induction holes with
  | nil => rfl
  | cons hole holes ih =>
      have hFirst : f hole.1 = g hole.1 := h hole List.mem_cons_self
      have hRest := ih fun x hx => h x (List.mem_cons_of_mem _ hx)
      obtain ⟨k, literal⟩ := hole
      rw [fillHoles, fillHoles, hFirst, hRest]

theorem fillHoles_append (f : Text → Option Text) (holes more : List (Text × Text)) :
    fillHoles f (holes ++ more) =
      (fillHoles f holes).bind fun a => (fillHoles f more).map fun b => a ++ b := by
  induction holes with
  | nil =>
      rw [List.nil_append, fillHoles]
      simp
  | cons hole holes ih =>
      obtain ⟨k, literal⟩ := hole
      rw [List.cons_append, fillHoles, fillHoles, ih]
      cases f k with
      | none => rfl
      | some v =>
          cases fillHoles f holes with
          | none => rfl
          | some a =>
              cases fillHoles f more with
              | none => rfl
              | some b => simp

/-- Values that differ in one key fill a pattern without it alike. -/
theorem fill_of_absent {p : Pattern} {front : List (Text × Text)}
    (h : ∀ hole ∈ p.holes, hole.1 ≠ key) (v w : Text) :
    p.fill (valueOf (front ++ [(key, v)])) = p.fill (valueOf (front ++ [(key, w)])) := by
  unfold fill
  rw [fillHoles_congr fun hole hHole => ?_]
  rw [valueOf_concat, valueOf_concat, if_neg (h hole hHole), if_neg (h hole hHole)]

/-- Text added to the value of the last key is added to the end of the result. -/
theorem fill_of_last {p : Pattern} {front outer : List (Text × Text)} {v u : Text}
    (hHoles : p.holes = outer ++ [(key, [])]) (hOuter : ∀ hole ∈ outer, hole.1 ≠ key)
    (h : p.fill (valueOf (front ++ [(key, v)])) = some u) (x : Text) :
    p.fill (valueOf (front ++ [(key, v ++ x)])) = some (u ++ x) := by
  have hSame : fillHoles (valueOf (front ++ [(key, v ++ x)])) outer =
      fillHoles (valueOf (front ++ [(key, v)])) outer := by
    apply fillHoles_congr
    intro hole hHole
    rw [valueOf_concat, valueOf_concat, if_neg (hOuter hole hHole), if_neg (hOuter hole hHole)]
  have hLast : ∀ w, fillHoles (valueOf (front ++ [(key, w)])) [(key, [])] = some w := by
    intro w
    simp [fillHoles, valueOf_concat]
  unfold fill at h ⊢
  rw [hHoles, fillHoles_append, hLast] at h ⊢
  rw [hSame]
  obtain ⟨filled, hFilled, rfl⟩ := Option.map_eq_some_iff.mp h
  obtain ⟨a, hOuterFilled, hAppend⟩ := Option.bind_eq_some_iff.mp hFilled
  obtain rfl : a ++ v = filled := by simpa using hAppend
  rw [hOuterFilled]
  simp

end Pattern

namespace Shortcut

variable {s : Shortcut} {key t u : Text}

/-- The last key of the input pattern stands at the end of the output pattern and nowhere
else in it, or not at all. -/
structure KeepsLast (s : Shortcut) (key : Text) : Prop where
  input : Pattern.EndsIn (Pattern.ofText s.input).holes key
  output : (∀ hole ∈ (Pattern.ofText s.output).holes, hole.1 ≠ key) ∨
    ∃ outer, (Pattern.ofText s.output).holes = outer ++ [(key, [])] ∧
      ∀ hole ∈ outer, hole.1 ≠ key

/-- More text at the end of a message is added to the end of the result, or is lost. -/
theorem applyTo?_append (hs : s.KeepsLast key) (h : s.applyTo? t = some u) (x : Text) :
    s.applyTo? (t ++ x) = some u ∨ s.applyTo? (t ++ x) = some (u ++ x) := by
  unfold applyTo? at h
  simp only [Option.bind_eq_bind, Option.bind_eq_some_iff, Prod.exists] at h
  obtain ⟨name, args, hCut, bindings, hBind, hFill⟩ := h
  obtain ⟨c, hc, rfl, hName⟩ := Text.exists_of_cutAt hCut
  obtain ⟨front, v, rfl, hBindMore⟩ := Pattern.bind_append hs.input hBind x
  have hApply : s.applyTo? (name ++ c :: args ++ x) =
      (Pattern.ofText s.output).fill (Pattern.valueOf (front ++ [(key, v ++ x)])) := by
    unfold applyTo?
    rw [List.append_assoc, List.cons_append, Text.cutAt_append_cons hName hc]
    simp [hBindMore]
  rw [hApply]
  rcases hs.output with hAbsent | ⟨outer, hHoles, hOuter⟩
  · exact Or.inl ((Pattern.fill_of_absent hAbsent _ _).trans hFill)
  · exact Or.inr (Pattern.fill_of_last hHoles hOuter hFill x)

end Shortcut

end TableTalk
