import Mathlib.Data.List.Forall2
import Mathlib.Data.List.Nodup
import Mathlib.Data.List.Sort

/-!
# Traversals that may stop

Cells, pairs, segments and constraints are taken one after another until one of
them is refused.  These are the facts about such a traversal that the theories of
adds, queries and free windows share: what a completed one has seen, and where the
cause of a refused one comes from.  A search stops as well, at what it finds.

What a traversal leaves is often a list that ascends by some key, and such lists are
compared by their members.
-/

namespace TableTalk.Traversal

variable {ε α β : Type}

theorem bind_eq_ok_iff {x : Except ε α} {f : α → Except ε β} {b : β} :
    x >>= f = .ok b ↔ ∃ a, x = .ok a ∧ f a = .ok b := by
  rcases x with e | a
  · simp [bind, Except.bind]
  · simp [bind, Except.bind]

theorem map_eq_ok_iff {x : Except ε α} {f : α → β} {b : β} :
    x.map f = .ok b ↔ ∃ a, x = .ok a ∧ f a = b := by
  rcases x with e | a
  · simp [Except.map]
  · simp [Except.map]

theorem mapM_cons_ok {f : α → Except ε β} {x : α} {xs : List α} {ys : List β} :
    (x :: xs).mapM f = .ok ys ↔ ∃ y rest, f x = .ok y ∧ xs.mapM f = .ok rest ∧ ys = y :: rest := by
  rw [List.mapM_cons]
  rcases hx : f x with e | y
  · simp [bind, Except.bind]
  · rcases hxs : xs.mapM f with e | rest
    · simp [bind, Except.bind]
    · simp [bind, Except.bind, pure, Except.pure, eq_comm]

/-- A completed traversal has taken every element to its result. -/
theorem mapM_eq_ok_iff {f : α → Except ε β} {xs : List α} {ys : List β} :
    xs.mapM f = .ok ys ↔ List.Forall₂ (fun x y => f x = .ok y) xs ys := by
  induction xs generalizing ys with
  | nil => simp [pure, Except.pure, eq_comm]
  | cons x xs ih =>
      rw [mapM_cons_ok, List.forall₂_cons_left_iff]
      constructor
      · rintro ⟨y, rest, hx, hxs, rfl⟩
        exact ⟨y, rest, hx, ih.mp hxs, rfl⟩
      · rintro ⟨y, rest, hx, hxs, rfl⟩
        exact ⟨y, rest, hx, ih.mpr hxs, rfl⟩

/-- A completed traversal has refused nothing. -/
theorem exists_of_mapM_ok {f : α → Except ε β} {xs : List α} {ys : List β}
    (h : xs.mapM f = .ok ys) {x : α} (hx : x ∈ xs) : ∃ y, f x = .ok y := by
  induction xs generalizing ys with
  | nil => exact absurd hx List.not_mem_nil
  | cons first xs ih =>
      obtain ⟨y, rest, hFirst, hRest, -⟩ := mapM_cons_ok.mp h
      rcases List.mem_cons.mp hx with rfl | hx
      · exact ⟨y, hFirst⟩
      · exact ih hRest hx

/-- Each result is that of an element. -/
theorem exists_of_mem_mapM {f : α → Except ε β} {xs : List α} {ys : List β}
    (h : xs.mapM f = .ok ys) {y : β} (hy : y ∈ ys) : ∃ x ∈ xs, f x = .ok y := by
  induction xs generalizing ys with
  | nil =>
      obtain rfl : [] = ys := Except.ok.inj h
      cases hy
  | cons first xs ih =>
      obtain ⟨z, rest, hFirst, hRest, rfl⟩ := mapM_cons_ok.mp h
      rcases List.mem_cons.mp hy with rfl | hy
      · exact ⟨first, List.mem_cons_self, hFirst⟩
      · obtain ⟨x, hx, hRead⟩ := ih hRest hy
        exact ⟨x, List.mem_cons_of_mem _ hx, hRead⟩

/-- A traversal that stops nowhere gives the results one by one. -/
theorem mapM_eq_pure_map {m : Type → Type} [Monad m] [LawfulMonad m] {f : α → m β} {g : α → β}
    {xs : List α} (h : ∀ x ∈ xs, f x = pure (g x)) : xs.mapM f = pure (xs.map g) := by
  induction xs with
  | nil => rfl
  | cons x xs ih =>
      rw [List.mapM_cons, h x List.mem_cons_self, pure_bind,
        ih fun y hy => h y (List.mem_cons_of_mem _ hy), pure_bind, List.map_cons]

/-- A search that stops at nothing but what it finds. -/
theorem findSomeM?_eq_pure_findSome? {m : Type → Type} [Monad m] [LawfulMonad m]
    {f : α → m (Option β)} {g : α → Option β} {xs : List α} (h : ∀ x ∈ xs, f x = pure (g x)) :
    xs.findSomeM? f = pure (xs.findSome? g) := by
  induction xs with
  | nil => rfl
  | cons x xs ih =>
      rw [List.findSomeM?_cons, h x List.mem_cons_self, pure_bind, List.findSome?_cons]
      cases g x with
      | none => exact ih fun y hy => h y (List.mem_cons_of_mem _ hy)
      | some y => rfl

/-- A traversal that refuses nothing gives the results one by one. -/
theorem mapM_eq_ok_map {f : α → Except ε β} {g : α → β} {xs : List α}
    (h : ∀ x ∈ xs, f x = .ok (g x)) : xs.mapM f = .ok (xs.map g) :=
  mapM_eq_pure_map h

theorem mapM_cons_error {f : α → Except ε β} {x : α} {xs : List α} {e : ε} :
    (x :: xs).mapM f = .error e ↔
      f x = .error e ∨ (∃ y, f x = .ok y) ∧ xs.mapM f = .error e := by
  rw [List.mapM_cons]
  rcases hx : f x with e' | y
  · simp [bind, Except.bind]
  · rcases hxs : xs.mapM f with e' | ys
    · simp [bind, Except.bind]
    · simp [bind, Except.bind, pure, Except.pure]

/-- A refused traversal was refused by the first element that is refused. -/
theorem mapM_eq_error_iff {f : α → Except ε β} {xs : List α} {e : ε} :
    xs.mapM f = .error e ↔ ∃ front x back, xs = front ++ x :: back ∧
      (∀ y ∈ front, ∃ z, f y = .ok z) ∧ f x = .error e := by
  induction xs with
  | nil => simp [pure, Except.pure]
  | cons first xs ih =>
      rw [mapM_cons_error, ih]
      constructor
      · rintro (hFirst | ⟨hOk, front, x, back, rfl, hFront, hx⟩)
        · exact ⟨[], first, xs, rfl, fun y hy => absurd hy List.not_mem_nil, hFirst⟩
        · exact ⟨first :: front, x, back, rfl, List.forall_mem_cons.mpr ⟨hOk, hFront⟩, hx⟩
      · rintro ⟨_ | ⟨y, front⟩, x, back, hSplit, hFront, hx⟩
        · obtain ⟨rfl, rfl⟩ := List.cons.inj hSplit
          exact Or.inl hx
        · obtain ⟨rfl, rfl⟩ := List.cons.inj hSplit
          obtain ⟨hOk, hRest⟩ := List.forall_mem_cons.mp hFront
          exact Or.inr ⟨hOk, front, x, back, rfl, hRest, hx⟩

/-- A refused traversal was refused by one of the elements. -/
theorem exists_of_mapM_error {f : α → Except ε β} {xs : List α} {e : ε}
    (h : xs.mapM f = .error e) : ∃ x ∈ xs, f x = .error e := by
  obtain ⟨front, x, back, rfl, -, hx⟩ := mapM_eq_error_iff.mp h
  exact ⟨x, by simp, hx⟩

theorem foldlM_cons_ok {f : β → α → Except ε β} {b c : β} {x : α} {xs : List α} :
    (x :: xs).foldlM f b = .ok c ↔ ∃ b', f b x = .ok b' ∧ xs.foldlM f b' = .ok c := by
  rw [List.foldlM_cons]
  rcases hx : f b x with e | b'
  · simp [bind, Except.bind]
  · simp [bind, Except.bind]

theorem foldlM_append_singleton_ok {f : β → α → Except ε β} {b c : β} {x : α} {xs : List α} :
    (xs ++ [x]).foldlM f b = .ok c ↔ ∃ b', xs.foldlM f b = .ok b' ∧ f b' x = .ok c := by
  rw [List.foldlM_append, bind_eq_ok_iff]
  simp only [List.foldlM_cons, List.foldlM_nil, bind_pure]

/-- What every step of a fold keeps, a completed fold has kept. -/
theorem foldlM_invariant {f : β → α → Except ε β} {P : β → Prop}
    (hStep : ∀ b x b', P b → f b x = .ok b' → P b') {xs : List α} {b c : β} (hStart : P b)
    (h : xs.foldlM f b = .ok c) : P c := by
  induction xs generalizing b with
  | nil =>
      obtain rfl : b = c := Except.ok.inj h
      exact hStart
  | cons x xs ih =>
      obtain ⟨b', hx, hxs⟩ := foldlM_cons_ok.mp h
      exact ih (hStep b x b' hStart hx) hxs

theorem foldlM_cons_error {f : β → α → Except ε β} {b : β} {x : α} {xs : List α} {e : ε} :
    (x :: xs).foldlM f b = .error e ↔
      f b x = .error e ∨ ∃ b', f b x = .ok b' ∧ xs.foldlM f b' = .error e := by
  rw [List.foldlM_cons]
  rcases hx : f b x with e' | b'
  · simp [bind, Except.bind]
  · simp [bind, Except.bind]

/-- A refused fold was refused by one of the elements, in the state that those before it
have led to. -/
theorem foldlM_eq_error_iff {f : β → α → Except ε β} {b : β} {xs : List α} {e : ε} :
    xs.foldlM f b = .error e ↔ ∃ front x back b', xs = front ++ x :: back ∧
      front.foldlM f b = .ok b' ∧ f b' x = .error e := by
  induction xs generalizing b with
  | nil => simp [pure, Except.pure]
  | cons first xs ih =>
      rw [foldlM_cons_error]
      constructor
      · rintro (hFirst | ⟨c, hFirst, hRest⟩)
        · exact ⟨[], first, xs, b, rfl, rfl, hFirst⟩
        · obtain ⟨front, x, back, b', rfl, hFront, hx⟩ := ih.mp hRest
          exact ⟨first :: front, x, back, b', rfl, foldlM_cons_ok.mpr ⟨c, hFirst, hFront⟩, hx⟩
      · rintro ⟨_ | ⟨y, front⟩, x, back, b', hSplit, hFront, hx⟩
        · obtain ⟨rfl, rfl⟩ := List.cons.inj hSplit
          obtain rfl := Except.ok.inj hFront
          exact Or.inl hx
        · obtain ⟨rfl, rfl⟩ := List.cons.inj hSplit
          obtain ⟨c, hFirst, hFront⟩ := foldlM_cons_ok.mp hFront
          exact Or.inr ⟨c, hFirst, ih.mpr ⟨front, x, back, b', rfl, hFront, hx⟩⟩

/-- A refused fold was refused by one of the elements, in some state. -/
theorem exists_of_foldlM_error {f : β → α → Except ε β} {b : β} {xs : List α} {e : ε}
    (h : xs.foldlM f b = .error e) : ∃ x ∈ xs, ∃ b', f b' x = .error e := by
  obtain ⟨front, x, back, b', rfl, -, hx⟩ := foldlM_eq_error_iff.mp h
  exact ⟨x, by simp, b', hx⟩

/-- A search finds the only element it can find. -/
theorem find?_eq_some_of_unique {p : α → Bool} {xs : List α} {x : α}
    (hMem : x ∈ xs) (hx : p x = true) (hUnique : ∀ y ∈ xs, p y = true → y = x) :
    xs.find? p = some x := by
  obtain ⟨y, hFound⟩ := Option.isSome_iff_exists.mp (List.find?_isSome.mpr ⟨x, hMem, hx⟩)
  have hSame : y = x := hUnique y (List.mem_of_find?_eq_some hFound) (List.find?_some hFound)
  rw [hFound, hSame]

/-- An element that alone gives anything gives everything. -/
theorem flatMap_eq_of_unique {f : α → List β} {xs : List α} {x : α}
    (hNodup : xs.Nodup) (hMem : x ∈ xs) (hOther : ∀ y ∈ xs, y ≠ x → f y = []) :
    xs.flatMap f = f x := by
  obtain ⟨front, back, rfl⟩ := List.append_of_mem hMem
  obtain ⟨-, hBack, hApart⟩ := List.nodup_append'.mp hNodup
  have hFrontNil : front.flatMap f = [] := List.flatMap_eq_nil_iff.mpr fun y hy =>
    hOther y (List.mem_append_left _ hy) fun hSame => hApart hy (hSame ▸ List.mem_cons_self)
  have hBackNil : back.flatMap f = [] := List.flatMap_eq_nil_iff.mpr fun y hy =>
    hOther y (List.mem_append_right _ (List.mem_cons_of_mem _ hy)) fun hSame =>
      (List.nodup_cons.mp hBack).1 (hSame ▸ hy)
  rw [List.flatMap_append, List.flatMap_cons, hFrontNil, hBackNil, List.nil_append,
    List.append_nil]

/-- Lists that ascend by a key are the same if they have the same members. -/
theorem eq_of_ascending [Preorder β] {key : α → β} {xs ys : List α}
    (hx : xs.Pairwise fun a b => key a < key b) (hy : ys.Pairwise fun a b => key a < key b)
    (h : ∀ a, a ∈ xs ↔ a ∈ ys) : xs = ys := by
  have hIrrefl : Std.Irrefl fun a b => key a < key b := ⟨fun _ => lt_irrefl _⟩
  have hAntisymm : Std.Antisymm fun a b => key a < key b :=
    ⟨fun _ _ hab hba => absurd hab hba.asymm⟩
  exact hx.eq_of_mem_iff hy h

/-- Two searches that are in step at every element find results in step. -/
theorem findSome?_rel {γ : Type} {R : β → γ → Prop} {f : α → Option β} {g : α → Option γ}
    {xs : List α}
    (hNone : ∀ x ∈ xs, f x = none → g x = none)
    (hSome : ∀ x ∈ xs, ∀ a, f x = some a → ∃ b, g x = some b ∧ R a b) :
    (xs.findSome? f = none → xs.findSome? g = none) ∧
      ∀ a, xs.findSome? f = some a → ∃ b, xs.findSome? g = some b ∧ R a b := by
  induction xs with
  | nil => simp
  | cons x xs ih =>
      have hRest := ih (fun y hy => hNone y (List.mem_cons_of_mem _ hy))
        fun y hy => hSome y (List.mem_cons_of_mem _ hy)
      rw [List.findSome?_cons, List.findSome?_cons]
      cases hf : f x with
      | none =>
          rw [hNone x List.mem_cons_self hf]
          exact hRest
      | some a =>
          obtain ⟨b, hg, hR⟩ := hSome x List.mem_cons_self a hf
          rw [hg]
          refine ⟨fun hFound => (by cases hFound), fun a' hFound => ⟨b, rfl, ?_⟩⟩
          cases hFound
          exact hR

end TableTalk.Traversal
