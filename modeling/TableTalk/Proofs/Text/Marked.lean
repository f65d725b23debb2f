import TableTalk.Proofs.Text.Words

/-!
# Texts cut at marks

Arguments are cut wherever a space is followed by a mark.  Which characters are marks is a
parameter here: queries have seven of them, adds have the plus sign.  A space is never a mark,
so that no character is both the space of one mark and another mark.

Two descriptions of the cut are proved.

* Writing undoes it: pieces without marks of their own, each written after a space and its
  mark, are the pieces of the text (`Text.cutAtMarks_write`).
* The places of marks determine it.  `Text.marks` lists them as positions, and each piece is
  what stands between one place and the next (`Text.cutAtMarks_eq`), so that no place is passed
  over and none is made up.
-/

namespace TableTalk.Text

variable {α : Type} {mark? : Char → Option α} {c : Char} {m : α} {s t : Text}

/-- Cut a text at each space that is followed by a mark: the text before the first mark, and
each mark with the text up to the next. -/
def cutAtMarks (mark? : Char → Option α) : Text → Text × List (α × Text)
  | [] => ([], [])
  | [c] => ([c], [])
  | c :: d :: t =>
      match (if c = ' ' then mark? d else none) with
      | some m => ([], (m, (cutAtMarks mark? t).1) :: (cutAtMarks mark? t).2)
      | none => (c :: (cutAtMarks mark? (d :: t)).1, (cutAtMarks mark? (d :: t)).2)

theorem cutAtMarks_cons (h : c = ' ' → ∀ d ∈ t.head?, mark? d = none) :
    cutAtMarks mark? (c :: t) = (c :: (cutAtMarks mark? t).1, (cutAtMarks mark? t).2) := by
  rcases t with _ | ⟨d, t⟩
  · rfl
  · have hNone : (if c = ' ' then mark? d else none) = none := by
      split
      · rename_i hSpace
        exact h hSpace d rfl
      · rfl
    rw [cutAtMarks, hNone]

theorem cutAtMarks_mark (h : mark? c = some m) (t : Text) :
    cutAtMarks mark? (' ' :: c :: t) =
      ([], (m, (cutAtMarks mark? t).1) :: (cutAtMarks mark? t).2) := by
  rw [cutAtMarks, if_pos rfl, h]

/-! ### Pieces that are written -/

/-- No space in the text is followed by a mark. -/
def Unmarked (mark? : Char → Option α) (t : Text) : Prop :=
  ∀ c, [' ', c] <:+: t → mark? c = none

/-- The cut passes over a text in which no space is followed by a mark, the place where the
text meets the rest included. -/
theorem cutAtMarks_append (h : ∀ u v, s = u ++ ' ' :: v → ∀ d ∈ (v ++ t).head?, mark? d = none) :
    cutAtMarks mark? (s ++ t) = (s ++ (cutAtMarks mark? t).1, (cutAtMarks mark? t).2) := by
  induction s with
  | nil => rfl
  | cons c s ih =>
      have hHere : c = ' ' → ∀ d ∈ (s ++ t).head?, mark? d = none := by
        rintro rfl
        exact h [] s rfl
      rw [List.cons_append, cutAtMarks_cons hHere, ih fun u v hs => h (c :: u) v
        (congrArg (c :: ·) hs), List.cons_append]

/-- A text without marks meets the space of a mark without making another. -/
theorem Unmarked.next (hs : Unmarked mark? s) (hSpace : mark? ' ' = none)
    (ht : ∀ d ∈ t.head?, d = ' ') (u v : Text) (h : s = u ++ ' ' :: v) :
    ∀ d ∈ (v ++ t).head?, mark? d = none := by
  intro d hd
  rcases v with _ | ⟨x, v⟩
  · rw [ht d hd]
    exact hSpace
  · obtain rfl : x = d := Option.some.inj hd
    exact hs x ⟨u, v, by simp [h]⟩

/-- A text without marks stays so when another one follows a space, if that one does not open
with a mark. -/
theorem Unmarked.append_space (hs : ' ' ∉ s) (ht : Unmarked mark? t)
    (hHead : ∀ d ∈ t.head?, mark? d = none) : Unmarked mark? (s ++ ' ' :: t) := by
  rintro c ⟨u, v, h⟩
  have hCut : s ++ ' ' :: t = u ++ ' ' :: (c :: v) := by
    rw [← h]
    simp
  rcases cases_of_append_eq hCut with ⟨d, rfl, -⟩ | ⟨d, -, hRest⟩
  · exact absurd (by simp) hs
  · rcases d with _ | ⟨x, d⟩
    · exact hHead c (by rw [(List.cons.inj hRest).2]; rfl)
    · exact ht c ⟨d, v, by simp [(List.cons.inj hRest).2]⟩

theorem unmarked_of_not_mem (h : ' ' ∉ s) : Unmarked mark? s :=
  fun _ hc => absurd (hc.subset List.mem_cons_self) h

/-- **Cutting undoes writing.** -/
theorem cutAtMarks_write {char : α → Char} (hChar : ∀ m, mark? (char m) = some m)
    (hSpace : mark? ' ' = none) {before : Text} (hBefore : Unmarked mark? before)
    {pieces : List (α × Text)} (h : ∀ p ∈ pieces, Unmarked mark? p.2) :
    cutAtMarks mark? (before ++ pieces.flatMap fun p => ' ' :: char p.1 :: p.2) =
      (before, pieces) := by
  induction pieces generalizing before with
  | nil =>
      rw [List.flatMap_nil, cutAtMarks_append (hBefore.next hSpace (by simp))]
      simp [cutAtMarks]
  | cons p pieces ih =>
      rw [List.flatMap_cons, List.cons_append, List.cons_append,
        cutAtMarks_append (hBefore.next hSpace (by simp)), cutAtMarks_mark (hChar p.1),
        ih (h p List.mem_cons_self) fun q hq => h q (List.mem_cons_of_mem p hq), List.append_nil]

/-! ### Places of marks -/

/-- The mark after a space at a position. -/
def markAt (mark? : Char → Option α) (t : Text) (i : Nat) : Option α :=
  if t[i]? = some ' ' then t[i + 1]?.bind mark? else none

/-- The positions of the spaces that are followed by a mark, in ascending order, with the
marks. -/
def marks (mark? : Char → Option α) (t : Text) : List (Nat × α) :=
  (List.range t.length).filterMap fun i => (markAt mark? t i).map (i, ·)

theorem mem_marks_iff {i : Nat} :
    (i, m) ∈ marks mark? t ↔ t[i]? = some ' ' ∧ t[i + 1]?.bind mark? = some m := by
  have hAt : markAt mark? t i = some m ↔ t[i]? = some ' ' ∧ t[i + 1]?.bind mark? = some m := by
    unfold markAt
    split
    · rename_i hSpace
      simp [hSpace]
    · rename_i hSpace
      simp [hSpace]
  rw [← hAt, marks, List.mem_filterMap]
  constructor
  · rintro ⟨j, -, hPlace⟩
    obtain ⟨m', hMark, hSame⟩ := Option.map_eq_some_iff.mp hPlace
    obtain ⟨rfl, rfl⟩ := Prod.mk.inj hSame
    exact hMark
  · intro hMark
    obtain ⟨hLength, -⟩ := List.getElem?_eq_some_iff.mp (hAt.mp hMark).1
    exact ⟨i, List.mem_range.mpr hLength, by rw [hMark]; rfl⟩

/-- Places are listed from the front of the text to its end. -/
theorem marks_ascending (mark? : Char → Option α) (t : Text) :
    (marks mark? t).Pairwise fun p q => p.1 < q.1 := by
  refine List.Pairwise.filterMap _ (fun i j hij p hp q hq => ?_) List.pairwise_lt_range
  obtain ⟨_, -, rfl⟩ := Option.map_eq_some_iff.mp hp
  obtain ⟨_, -, rfl⟩ := Option.map_eq_some_iff.mp hq
  exact hij

theorem marks_cons (c : Char) (t : Text) :
    marks mark? (c :: t) = ((markAt mark? (c :: t) 0).map (0, ·)).toList ++
      (marks mark? t).map fun p => (p.1 + 1, p.2) := by
  have hRest (i : Nat) : (markAt mark? (c :: t) (i + 1)).map (i + 1, ·) =
      ((markAt mark? t i).map (i, ·)).map fun p => (p.1 + 1, p.2) := by
    rw [Option.map_map]
    rfl
  unfold marks
  rw [List.length_cons, List.range_succ_eq_map, List.filterMap_cons, List.filterMap_map,
    List.map_filterMap, ← funext hRest]
  cases markAt mark? (c :: t) 0 <;> rfl

theorem marks_cons_of_none (h : markAt mark? (c :: t) 0 = none) :
    marks mark? (c :: t) = (marks mark? t).map fun p => (p.1 + 1, p.2) := by
  rw [marks_cons, h]
  rfl

theorem marks_cons_of_some (h : markAt mark? (c :: t) 0 = some m) :
    marks mark? (c :: t) = (0, m) :: (marks mark? t).map fun p => (p.1 + 1, p.2) := by
  rw [marks_cons, h]
  rfl

/-- Where the text before a mark ends: at the place of the mark, or with the whole text if
there are not so many marks. -/
def markEnd (mark? : Char → Option α) (t : Text) (k : Nat) : Nat :=
  ((marks mark? t)[k]?).elim t.length Prod.fst

theorem markEnd_cons_of_none (h : markAt mark? (c :: t) 0 = none) (k : Nat) :
    markEnd mark? (c :: t) k = markEnd mark? t k + 1 := by
  unfold markEnd
  rw [marks_cons_of_none h, List.getElem?_map]
  cases (marks mark? t)[k]? <;> rfl

theorem markEnd_cons_of_some (h : markAt mark? (c :: t) 0 = some m) (k : Nat) :
    markEnd mark? (c :: t) (k + 1) = markEnd mark? t k + 1 := by
  unfold markEnd
  rw [marks_cons_of_some h, List.getElem?_cons_succ, List.getElem?_map]
  cases (marks mark? t)[k]? <;> rfl

/-- The text of a mark: from behind the mark to the next place. -/
def markText (mark? : Char → Option α) (t : Text) (k : Nat) (place : Nat) : Text :=
  (t.take (markEnd mark? t (k + 1))).drop (place + 2)

theorem markText_cons_of_none (h : markAt mark? (c :: t) 0 = none) (k i : Nat) :
    markText mark? (c :: t) k (i + 1) = markText mark? t k i := by
  unfold markText
  rw [markEnd_cons_of_none h]
  rfl

theorem markText_cons_of_some (h : markAt mark? (c :: t) 0 = some m) (k i : Nat) :
    markText mark? (c :: t) (k + 1) (i + 1) = markText mark? t k i := by
  unfold markText
  rw [markEnd_cons_of_some h]
  rfl

/-- The cut of a text is described by the places of its marks. -/
def CutAtPlaces (mark? : Char → Option α) (t : Text) : Prop :=
  (cutAtMarks mark? t).1 = t.take (markEnd mark? t 0) ∧
    ∀ k, (cutAtMarks mark? t).2[k]? =
      (marks mark? t)[k]?.map fun p => (p.2, markText mark? t k p.1)

theorem CutAtPlaces.cons (ht : CutAtPlaces mark? t) (h : markAt mark? (c :: t) 0 = none) :
    CutAtPlaces mark? (c :: t) := by
  have hHere : c = ' ' → ∀ d ∈ t.head?, mark? d = none := by
    rintro rfl d hd
    rcases t with _ | ⟨x, t⟩
    · cases hd
    · obtain rfl : x = d := Option.some.inj hd
      exact h
  unfold CutAtPlaces
  rw [cutAtMarks_cons hHere, marks_cons_of_none h, markEnd_cons_of_none h, ht.1]
  refine ⟨rfl, fun k => ?_⟩
  rw [ht.2, List.getElem?_map, Option.map_map]
  congr 1
  funext p
  exact Prod.ext rfl (markText_cons_of_none h k p.1).symm

theorem CutAtPlaces.mark (ht : CutAtPlaces mark? t) (hSpace : mark? ' ' = none)
    (h : mark? c = some m) : CutAtPlaces mark? (' ' :: c :: t) := by
  have hHere : markAt mark? (' ' :: c :: t) 0 = some m := h
  -- The mark is no space, so that the next mark cannot begin with it.
  have hNext : markAt mark? (c :: t) 0 = none := by
    refine if_neg fun hc => ?_
    obtain rfl : c = ' ' := Option.some.inj hc
    rw [hSpace] at h
    cases h
  unfold CutAtPlaces
  rw [cutAtMarks_mark h, marks_cons_of_some hHere, marks_cons_of_none hNext]
  refine ⟨by simp [markEnd, marks_cons_of_some hHere], fun k => ?_⟩
  cases k with
  | zero =>
      have hBody : markText mark? (' ' :: c :: t) 0 0 = t.take (markEnd mark? t 0) := by
        unfold markText
        rw [markEnd_cons_of_some hHere, markEnd_cons_of_none hNext]
        rfl
      simp [hBody, ht.1]
  | succ k =>
      rw [List.getElem?_cons_succ, List.getElem?_cons_succ, ht.2, List.map_map, List.getElem?_map,
        Option.map_map]
      congr 1
      funext p
      refine Prod.ext rfl ?_
      exact ((markText_cons_of_some hHere k (p.1 + 1)).trans
        (markText_cons_of_none hNext k p.1)).symm

theorem cutAtPlaces (hSpace : mark? ' ' = none) (t : Text) : CutAtPlaces mark? t := by
  fun_induction cutAtMarks mark? t with
  | case1 => exact ⟨rfl, fun k => rfl⟩
  | case2 c =>
      have hEmpty : CutAtPlaces mark? [] := ⟨rfl, fun k => rfl⟩
      exact hEmpty.cons (by simp [markAt])
  | case3 c d t m hMark ih =>
      split at hMark
      · rename_i hc
        rw [hc]
        exact ih.mark hSpace hMark
      · cases hMark
  | case4 c d t hNone ih =>
      refine ih.cons ?_
      simpa [markAt] using hNone

/-- **Pieces stand between places.**  The text before the first mark ends at the first place,
and there is one piece for each place, which goes from behind the mark to the next place. -/
theorem cutAtMarks_eq (hSpace : mark? ' ' = none) (t : Text) :
    cutAtMarks mark? t = (t.take (markEnd mark? t 0),
      (marks mark? t).mapIdx fun k p => (p.2, markText mark? t k p.1)) := by
  refine Prod.ext (cutAtPlaces hSpace t).1 (List.ext_getElem? fun k => ?_)
  rw [(cutAtPlaces hSpace t).2, List.getElem?_mapIdx]

end TableTalk.Text
