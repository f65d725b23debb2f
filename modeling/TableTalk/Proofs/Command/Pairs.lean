import TableTalk.Proofs.Command.Signs
import TableTalk.Proofs.Traversal

/-!
# Pairs undo writing

The arguments of an add are written as pairs, each a space, a plus sign, a label, a space and
a value.  Cutting gives them back (`Add.pairs_write_inverse`), provided that the label has no
blank and the value neither opens with a plus sign nor has one after a space.  The space in
front of the first pair may be left out, since a sign that opens the text counts as well; and
any text may stand before it in which no sign counts.

Of any arguments, written in this way or not, there is one pair for each sign that counts, in
the order of their positions (`Add.signs`), or the first text of a sign without a blank is
named as a label without a value.  A sign counts if a space precedes it, and the first
character is treated as if one did (`Add.pieces_eq`); with that, signs are cut at like any
other marks (`Text.cutAtMarks_eq`).
-/

namespace TableTalk.Add

open Text (Solid)

/-! ### Written pairs -/

/-- A pair as it is written. -/
def written (p : Text × Text) : Text :=
  ' ' :: '+' :: (p.1 ++ ' ' :: p.2)

/-- Nothing in the label or the value of the pair reads as their end. -/
structure WritablePair (p : Text × Text) : Prop where
  label_solid : Solid p.1
  value_trimmed : Text.trim p.2 = p.2
  value_head : p.2.head? ≠ some '+'
  value_unsigned : ¬ [' ', '+'] <:+: p.2

theorem unmarked_sign_iff {t : Text} : Text.Unmarked sign? t ↔ ¬ [' ', '+'] <:+: t := by
  unfold Text.Unmarked
  simp only [sign?_eq_none_iff]
  constructor
  · intro h hSign
    exact h '+' hSign rfl
  · rintro h c hc rfl
    exact h hc

/-- The pieces are cut as if a space stood before the arguments. -/
theorem pieces_eq (args : Text) : pieces args = (cutAtSigns (' ' :: args)).2 := by
  by_cases hSign : args.head? = some '+'
  -- The sign at the front is passed over as no sign of the text, and is one behind the space.
  · obtain ⟨t, rfl⟩ := List.head?_eq_some_iff.mp hSign
    have hCut : cutAtSigns ('+' :: t) = ('+' :: (cutAtSigns t).1, (cutAtSigns t).2) :=
      cutAtSigns_solid (s := ['+']) (by decide) t
    simp only [pieces, hCut, cutAtSigns_sign]
  -- Otherwise the space is passed over as well, and no sign opens what is before the first one.
  · have hSpace : cutAtSigns (' ' :: args) = (' ' :: (cutAtSigns args).1, (cutAtSigns args).2) := by
      refine cutAtSigns_append (s := [' ']) fun u v hSplit => ?_
      rcases u with _ | ⟨x, u⟩
      · rw [← (List.cons.inj hSplit).2]
        exact hSign
      · simp at hSplit
    unfold pieces
    split
    · rename_i first rest hCut
      exact absurd (head_cutAtSigns args '+' (by rw [hCut]; rfl)) hSign
    · rename_i rest hCut
      rw [hSpace, hCut]

theorem WritablePair.unmarked {p : Text × Text} (h : WritablePair p) :
    Text.Unmarked sign? (p.1 ++ ' ' :: p.2) := by
  refine Text.Unmarked.append_space h.label_solid.space_not_mem
    (unmarked_sign_iff.mpr h.value_unsigned) fun d hd => ?_
  rw [sign?_eq_none_iff]
  rintro rfl
  exact h.value_head hd

theorem WritablePair.pair {p : Text × Text} (h : WritablePair p) :
    pair (p.1 ++ ' ' :: p.2) = .ok p := by
  rw [Add.pair, Text.cutAt_append_cons h.label_solid Text.isBlank_space]
  simp only [h.value_trimmed]

/-- Pairs that can be written are read back, after any text without signs. -/
theorem pairs_of_written {args before : Text} {ps : List (Text × Text)}
    (hArgs : ' ' :: args = before ++ ps.flatMap written) (hBefore : ¬ [' ', '+'] <:+: before)
    (h : ∀ p ∈ ps, WritablePair p) : pairs args = .ok ps := by
  have hBodies : ∀ q ∈ ps.map fun p => ((), p.1 ++ ' ' :: p.2), Text.Unmarked sign? q.2 := by
    intro q hq
    obtain ⟨p, hp, rfl⟩ := List.mem_map.mp hq
    exact (h p hp).unmarked
  have hSign : ∀ m : Unit, sign? '+' = some m := fun _ => rfl
  have hCut := Text.cutAtMarks_write hSign rfl (unmarked_sign_iff.mpr hBefore) hBodies
  rw [List.flatMap_map] at hCut
  have hPieces : pieces args = ps.map fun p => p.1 ++ ' ' :: p.2 := by
    rw [pieces_eq, hArgs, cutAtSigns_eq]
    exact (congrArg (fun cut => cut.2.map Prod.snd) hCut).trans List.map_map
  rw [pairs, hPieces, Traversal.mapM_eq_ok_iff, List.forall₂_map_left_iff, List.forall₂_same]
  exact fun p hp => (h p hp).pair

/-! ### Pairs of any arguments -/

/-- The positions of the signs that open the text or follow a space, in ascending order. -/
def signs (args : Text) : List Nat :=
  (List.range args.length).filter fun i => args[i]? = some '+' ∧ (i = 0 ∨ args[i - 1]? = some ' ')

/-- The texts of those signs, each up to the space before the next sign. -/
def signTexts (args : Text) : List Text :=
  (signs args).mapIdx fun k i =>
    (args.take (((signs args)[k + 1]?).elim args.length (· - 1))).drop (i + 1)

/-- The pair of a text: what stands before the first blank and, trimmed, what follows. -/
def textPair (t : Text) : Text × Text :=
  (t.takeWhile (!Text.isBlank ·), Text.trim (t.dropWhile (!Text.isBlank ·)))

theorem mem_signs_iff {args : Text} {i : Nat} :
    i ∈ signs args ↔ args[i]? = some '+' ∧ (i = 0 ∨ args[i - 1]? = some ' ') := by
  rw [signs, List.mem_filter, List.mem_range, decide_eq_true_iff]
  refine and_iff_right_of_imp fun h => ?_
  obtain ⟨hLength, -⟩ := List.getElem?_eq_some_iff.mp h.1
  exact hLength

theorem signs_ascending (args : Text) : (signs args).Pairwise (· < ·) :=
  List.Pairwise.filter _ List.pairwise_lt_range

/-- With a space in front of the arguments, their signs are marks after a space. -/
theorem places_eq_signs (args : Text) :
    (Text.marks sign? (' ' :: args)).map Prod.fst = signs args := by
  -- Both lists ascend, so that it is enough to compare what they have in them.
  have hAscending : ((Text.marks sign? (' ' :: args)).map Prod.fst).Pairwise (· < ·) :=
    List.pairwise_map.mpr (Text.marks_ascending sign? (' ' :: args))
  refine hAscending.eq_of_mem_iff (signs_ascending args) fun i => ?_
  have hPlace : i ∈ (Text.marks sign? (' ' :: args)).map Prod.fst ↔
      (i, ()) ∈ Text.marks sign? (' ' :: args) := by
    rw [List.mem_map]
    exact ⟨fun ⟨(_, ()), h, rfl⟩ => h, fun h => ⟨(i, ()), h, rfl⟩⟩
  have hNext : args[i]?.bind sign? = some () ↔ args[i]? = some '+' := by
    simp [Option.bind_eq_some_iff, sign?]
  rw [hPlace, Text.mem_marks_iff, mem_signs_iff, List.getElem?_cons_succ, hNext, and_comm]
  cases i with
  | zero => simp
  | succ i => simp

theorem getElem?_signs (args : Text) (k : Nat) :
    (signs args)[k]? = (Text.marks sign? (' ' :: args))[k]?.map Prod.fst := by
  rw [← places_eq_signs, List.getElem?_map]

theorem markEnd_eq (args : Text) (k : Nat) :
    Text.markEnd sign? (' ' :: args) k = ((signs args)[k]?).elim (args.length + 1) id := by
  rw [Text.markEnd, getElem?_signs]
  cases (Text.marks sign? (' ' :: args))[k]? <;> rfl

/-- The text of a sign is that of the mark: its end is the place of a later sign, so that there
is a character before it. -/
theorem markText_eq {args : Text} {k i : Nat} (h : (signs args)[k]? = some i) :
    Text.markText sign? (' ' :: args) k i =
      (args.take (((signs args)[k + 1]?).elim args.length (· - 1))).drop (i + 1) := by
  rw [Text.markText, markEnd_eq]
  cases hNext : (signs args)[k + 1]? with
  | none => rfl
  | some j =>
      have hLater : i < j := by
        obtain ⟨hk, rfl⟩ := List.getElem?_eq_some_iff.mp h
        obtain ⟨hj, rfl⟩ := List.getElem?_eq_some_iff.mp hNext
        exact List.pairwise_iff_getElem.mp (signs_ascending args) k (k + 1) hk hj
          (Nat.lt_succ_self k)
      obtain ⟨j, rfl⟩ := Nat.exists_eq_add_of_lt hLater
      rfl

theorem pieces_eq_signTexts (args : Text) : pieces args = signTexts args := by
  refine List.ext_getElem? fun k => ?_
  rw [pieces_eq, cutAtSigns_eq, Text.cutAtMarks_eq rfl, signTexts, List.getElem?_mapIdx]
  simp only [List.getElem?_map, List.getElem?_mapIdx]
  have hSign := getElem?_signs args k
  cases hMark : (Text.marks sign? (' ' :: args))[k]? with
  | none =>
      rw [hMark] at hSign
      rw [hSign]
      rfl
  | some p =>
      rw [hMark] at hSign
      rw [hSign]
      exact congrArg some (markText_eq hSign)

theorem pair_of_solid {t : Text} (h : Solid t) : pair t = .error (.missingValue t) := by
  rw [pair, Text.cutAt_eq_none_iff.mpr h, Text.trim_of_solid h]

theorem pair_of_not_solid {t : Text} (h : ¬ Solid t) : pair t = .ok (textPair t) := by
  unfold pair
  split
  · rename_i label value hCut
    obtain ⟨c, hc, rfl, hLabel⟩ := Text.exists_of_cutAt hCut
    have hBefore : ∀ x ∈ label, (!Text.isBlank x) = true := by
      intro x hx
      rw [hLabel x hx]
      rfl
    have hBlank : Text.Blank [c] := by simpa [Text.Blank] using hc
    have hValue : Text.trim (c :: value) = Text.trim value := Text.trim_blank_append hBlank value
    unfold textPair
    rw [List.takeWhile_append_of_pos hBefore, List.dropWhile_append_of_pos hBefore]
    simp [hc, hValue]
  · rename_i hCut
    exact absurd (Text.cutAt_eq_none_iff.mp hCut) h

theorem exists_pair_iff {t : Text} : (∃ p, pair t = .ok p) ↔ ¬ Solid t := by
  by_cases h : Solid t
  · simp [pair_of_solid h, h]
  · simp [pair_of_not_solid h, h]

theorem pair_eq_error_iff {t : Text} {cause : Rejection} :
    pair t = .error cause ↔ Solid t ∧ cause = .missingValue t := by
  by_cases h : Solid t
  · simp [pair_of_solid h, h, eq_comm]
  · simp [pair_of_not_solid h, h]

theorem pairs_eq_ok_iff {args : Text} {ps : List (Text × Text)} :
    pairs args = .ok ps ↔
      (∀ t ∈ signTexts args, ¬ Solid t) ∧ ps = (signTexts args).map textPair := by
  rw [pairs, pieces_eq_signTexts]
  constructor
  · intro h
    have hCut : ∀ t ∈ signTexts args, ¬ Solid t := fun t ht =>
      exists_pair_iff.mp (Traversal.exists_of_mapM_ok h ht)
    have hPairs := Traversal.mapM_eq_ok_map fun t ht => pair_of_not_solid (hCut t ht)
    exact ⟨hCut, Except.ok.inj (h.symm.trans hPairs)⟩
  · rintro ⟨hCut, rfl⟩
    exact Traversal.mapM_eq_ok_map fun t ht => pair_of_not_solid (hCut t ht)

theorem pairs_eq_error_iff {args : Text} {cause : Rejection} :
    pairs args = .error cause ↔ ∃ front t back, signTexts args = front ++ t :: back ∧
      (∀ s ∈ front, ¬ Solid s) ∧ Solid t ∧ cause = .missingValue t := by
  rw [pairs, pieces_eq_signTexts, Traversal.mapM_eq_error_iff]
  simp only [exists_pair_iff, pair_eq_error_iff]

/-- **Pairs undo writing.**  Pairs that can be written are read back after any text without
signs, and also if the space in front of them is left out.  Of every text there is one pair for
each sign that opens the text or follows a space, in the order of their positions, made of what
stands between the sign and the next; if one of these texts has no blank, the first such text
is refused as a label without a value. -/
theorem pairs_write_inverse :
    (∀ (before : Text) (ps : List (Text × Text)), before.head? ≠ some '+' →
      ¬ [' ', '+'] <:+: before → (∀ p ∈ ps, WritablePair p) →
      pairs (before ++ ps.flatMap written) = .ok ps ∧
        pairs ((ps.flatMap written).drop 1) = .ok ps) ∧
    ∀ args : Text,
      ((signs args).Pairwise (· < ·) ∧
        ∀ i, i ∈ signs args ↔ args[i]? = some '+' ∧ (i = 0 ∨ args[i - 1]? = some ' ')) ∧
      (∀ ps, pairs args = .ok ps ↔
        (∀ t ∈ signTexts args, ¬ Solid t) ∧ ps = (signTexts args).map textPair) ∧
      ∀ cause, pairs args = .error cause ↔ ∃ front t back, signTexts args = front ++ t :: back ∧
        (∀ s ∈ front, ¬ Solid s) ∧ Solid t ∧ cause = .missingValue t := by
  refine ⟨fun before ps hHead hBefore h => ⟨?_, ?_⟩, fun args => ⟨⟨signs_ascending args, fun i =>
    mem_signs_iff⟩, fun ps => pairs_eq_ok_iff, fun cause => pairs_eq_error_iff⟩⟩
  · have hSplit : ' ' :: (before ++ ps.flatMap written) =
        (' ' :: before) ++ ps.flatMap written := rfl
    refine pairs_of_written hSplit (fun hSign => ?_) h
    rcases List.infix_cons_iff.mp hSign with hOpen | hLater
    · obtain ⟨t, ht⟩ := (List.cons_prefix_cons.mp hOpen).2
      exact hHead (by rw [← ht]; rfl)
    · exact hBefore hLater
  · rcases ps with _ | ⟨p, ps⟩
    · rfl
    · have hSplit : ' ' :: ((p :: ps).flatMap written).drop 1 =
          [] ++ (p :: ps).flatMap written := rfl
      exact pairs_of_written hSplit (by decide) h

/-- Pairs with an empty label, an empty value, both or neither, with plus signs in labels and
values, one of them after a blank that is not a space. -/
def oddPairs : List (Text × Text) :=
  [([], []), ("+é".toList, []), ([], "1+ 2".toList), ("日+".toList, "a\t+b".toList)]

theorem writablePair_of_mem_oddPairs : ∀ p ∈ oddPairs, WritablePair p := by
  intro p hp
  simp only [oddPairs, List.mem_cons, List.not_mem_nil, or_false] at hp
  rcases hp with rfl | rfl | rfl | rfl
  all_goals exact ⟨Text.cutAt_eq_none_iff.mp (by decide), by decide, by decide, by decide⟩

/-- They are read back after a text that has a sign at its end, and without it. -/
theorem pairs_write_inverse_odd :
    "x+ ".toList.head? ≠ some '+' ∧ ¬ [' ', '+'] <:+: "x+ ".toList ∧
    (∀ p ∈ oddPairs, WritablePair p) ∧
    pairs "x+  +  ++é  + 1+ 2 +日+ a\t+b".toList = .ok oddPairs ∧
    pairs "+  ++é  + 1+ 2 +日+ a\t+b".toList = .ok oddPairs := by
  have hHead : "x+ ".toList.head? ≠ some '+' := by decide
  have hBefore : ¬ [' ', '+'] <:+: "x+ ".toList := by decide
  exact ⟨hHead, hBefore, writablePair_of_mem_oddPairs,
    pairs_write_inverse.1 _ oddPairs hHead hBefore writablePair_of_mem_oddPairs⟩

end TableTalk.Add
