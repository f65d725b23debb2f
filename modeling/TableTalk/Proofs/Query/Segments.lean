import Mathlib.Data.List.Infix
import TableTalk.Query.Segment
import TableTalk.Proofs.Text.Marked

/-!
# Segments undo writing

The arguments of a query are written as segments, each a space, the character of its marker,
a label and perhaps a space and a value.  Splitting gives them back
(`Segment.split_write_inverse`), provided that nothing in a label or value reads as the
beginning of another segment: a label has no space, and in a value no space is followed by the
character of a marker, nor does the value open with one.  Labels and values may hold such
characters otherwise, labels may even open with one, and either may be empty.

Of any arguments, written in this way or not, splitting makes one segment for each place where
a space is followed by the character of a marker, in order.  The places are positions in the
text (`Text.marks`), and the segment is made of what stands between its place and the next.
-/

namespace TableTalk

theorem Marker.ofChar?_eq_some_iff {c : Char} {m : Marker} :
    Marker.ofChar? c = some m ↔ c = m.char := by
  constructor
  · intro h
    unfold Marker.ofChar? at h
    split at h <;> cases h <;> rfl
  · rintro rfl
    exact Marker.ofChar?_char m

namespace Segment

/-! ### Written segments -/

/-- What follows the marker of a segment: its label and, after a space, its value. -/
def body (s : Segment) : Text :=
  s.label ++ s.value.elim [] (' ' :: ·)

/-- A segment as it is written. -/
def written (s : Segment) : Text :=
  ' ' :: s.marker.char :: s.body

/-- The value neither opens with the character of a marker nor has one after a space. -/
structure WritableValue (v : Text) : Prop where
  trimmed : Text.trim v = v
  head : ∀ m : Marker, v.head? ≠ some m.char
  unmarked : ∀ m : Marker, ¬ [' ', m.char] <:+: v

/-- Nothing in the label or the value of the segment reads as the beginning of another. -/
structure Writable (s : Segment) : Prop where
  label_trimmed : Text.trim s.label = s.label
  space_not_mem_label : ' ' ∉ s.label
  value : ∀ v ∈ s.value, WritableValue v

theorem unmarked_iff {t : Text} :
    Text.Unmarked Marker.ofChar? t ↔ ∀ m : Marker, ¬ [' ', m.char] <:+: t := by
  constructor
  · intro h m hm
    have hNone := h m.char hm
    rw [Marker.ofChar?_char] at hNone
    cases hNone
  · intro h c hc
    rw [Option.eq_none_iff_forall_ne_some]
    intro m hm
    exact h m (Marker.ofChar?_eq_some_iff.mp hm ▸ hc)

theorem cutAtMarkers_eq (t : Text) : cutAtMarkers t = Text.cutAtMarks Marker.ofChar? t := by
  fun_induction cutAtMarkers t with
  | case1 => rfl
  | case2 c => rfl
  | case3 c d t m hMark body rest hRest ih =>
      rw [Text.cutAtMarks, hMark, ← ih, hRest]
  | case4 c d t hNone before rest hRest ih =>
      rw [Text.cutAtMarks, hNone, ← ih, hRest]

theorem Writable.unmarked_body {s : Segment} (h : s.Writable) :
    Text.Unmarked Marker.ofChar? s.body := by
  unfold body
  cases hValue : s.value with
  | none =>
      rw [Option.elim_none, List.append_nil]
      exact Text.unmarked_of_not_mem h.space_not_mem_label
  | some v =>
      refine Text.Unmarked.append_space h.space_not_mem_label
        (unmarked_iff.mpr (h.value v hValue).unmarked) fun d hd => ?_
      rw [Option.eq_none_iff_forall_ne_some]
      intro m hm
      exact (h.value v hValue).head m (Marker.ofChar?_eq_some_iff.mp hm ▸ hd)

/-- The label of a written segment ends at the space before the value, if there is one. -/
theorem Writable.ofBody_body {s : Segment} (h : s.Writable) : ofBody s.marker s.body = s := by
  have hLabel : ∀ x ∈ s.label, (x == ' ') = false := by
    intro x hx
    rw [beq_eq_false_iff_ne]
    rintro rfl
    exact h.space_not_mem_label hx
  unfold ofBody body
  cases hValue : s.value with
  | none =>
      rw [Option.elim_none, List.append_nil, Text.cutAt_eq_none_iff.mpr hLabel]
      simp only [h.label_trimmed, ← hValue]
  | some v =>
      rw [Option.elim_some, Text.cutAt_append_cons hLabel rfl]
      simp only [h.label_trimmed, (h.value v hValue).trimmed, ← hValue]

/-- Segments that can be written are read back, after any text without segments. -/
theorem split_write {before : Text} {segments : List Segment}
    (hBefore : ∀ m : Marker, ¬ [' ', m.char] <:+: before) (h : ∀ s ∈ segments, s.Writable) :
    split (before ++ segments.flatMap written) = segments := by
  -- The cut gives the bodies back, and each of them is read as the segment it was made of.
  have hBodies : ∀ p ∈ segments.map fun s => (s.marker, s.body),
      Text.Unmarked Marker.ofChar? p.2 := by
    intro p hp
    obtain ⟨s, hs, rfl⟩ := List.mem_map.mp hp
    exact (h s hs).unmarked_body
  have hCut := Text.cutAtMarks_write Marker.ofChar?_char rfl (unmarked_iff.mpr hBefore) hBodies
  rw [List.flatMap_map] at hCut
  have hRead : ∀ s ∈ segments, ofBody s.marker s.body = s := fun s hs => (h s hs).ofBody_body
  calc split (before ++ segments.flatMap written)
      = (segments.map fun s => (s.marker, s.body)).map fun p => ofBody p.1 p.2 := by
        rw [split, cutAtMarkers_eq]
        exact congrArg (fun cut => cut.2.map fun p => ofBody p.1 p.2) hCut
    _ = segments.map fun s => ofBody s.marker s.body := List.map_map
    _ = segments := by rw [List.map_congr_left hRead, List.map_id']

/-! ### Segments of any text -/

/-- The segment of a marker and the text after it: a label up to the first space and, if there
is a space, a value after it, both trimmed. -/
def ofText (marker : Marker) (t : Text) : Segment where
  marker := marker
  label := Text.trim (t.takeWhile (· != ' '))
  value := if ' ' ∈ t then some (Text.trim (t.dropWhile (· != ' '))) else none

theorem ofBody_eq (marker : Marker) (t : Text) : ofBody marker t = ofText marker t := by
  unfold ofBody ofText
  split
  · rename_i label value hCut
    obtain ⟨c, hc, rfl, hLabel⟩ := Text.exists_of_cutAt hCut
    obtain rfl : c = ' ' := eq_of_beq hc
    have hBefore : ∀ x ∈ label, (x != ' ') = true := by
      intro x hx
      rw [bne, hLabel x hx]
      rfl
    have hSpace : Text.Blank [' '] := by simp [Text.Blank, Text.isBlank_space]
    have hValue : Text.trim (' ' :: value) = Text.trim value := Text.trim_blank_append hSpace value
    rw [List.takeWhile_append_of_pos hBefore, List.dropWhile_append_of_pos hBefore]
    simp [hValue]
  · rename_i hCut
    have hNone : ∀ x ∈ t, (x == ' ') = false := Text.cutAt_eq_none_iff.mp hCut
    have hSpace : ' ' ∉ t := fun hMem => absurd (hNone ' ' hMem) (by decide)
    have hAll : t.takeWhile (· != ' ') = t := by
      refine List.takeWhile_eq_self_iff.mpr fun x hx => ?_
      rw [bne, hNone x hx]
      rfl
    rw [hAll, if_neg hSpace]

theorem split_eq_mapIdx (args : Text) :
    split args = (Text.marks Marker.ofChar? args).mapIdx fun k p =>
      ofText p.2 (Text.markText Marker.ofChar? args k p.1) := by
  rw [split, cutAtMarkers_eq, Text.cutAtMarks_eq rfl]
  refine List.ext_getElem? fun k => ?_
  simp [ofBody_eq, Function.comp_def]

/-- **Segments undo writing.**  Segments that can be written are read back after any text
without segments.  Of every text there is one segment for each position of a space that is
followed by the character of a marker, in the order of the positions; it has that marker, and
its label and value are what stands between the position and the next. -/
theorem split_write_inverse :
    (∀ (before : Text) (segments : List Segment), (∀ m : Marker, ¬ [' ', m.char] <:+: before) →
      (∀ s ∈ segments, s.Writable) → split (before ++ segments.flatMap written) = segments) ∧
    ∀ args : Text,
      split args = (Text.marks Marker.ofChar? args).mapIdx (fun k p =>
        ofText p.2 (Text.markText Marker.ofChar? args k p.1)) ∧
      ((Text.marks Marker.ofChar? args).Pairwise fun p q => p.1 < q.1) ∧
      ∀ i m, (i, m) ∈ Text.marks Marker.ofChar? args ↔
        args[i]? = some ' ' ∧ args[i + 1]? = some m.char := by
  refine ⟨fun before segments => split_write, fun args => ⟨split_eq_mapIdx args,
    Text.marks_ascending _ args, fun i m => ?_⟩⟩
  rw [Text.mem_marks_iff, Option.bind_eq_some_iff]
  simp only [Marker.ofChar?_eq_some_iff]
  constructor
  · rintro ⟨hSpace, c, hNext, rfl⟩
    exact ⟨hSpace, hNext⟩
  · rintro ⟨hSpace, hNext⟩
    exact ⟨hSpace, m.char, hNext, rfl⟩

/-- Segments with an empty label, an empty value, both or neither, with the character of a
marker in a label and in a value, and with blanks other than the space in a label. -/
def oddSegments : List Segment :=
  [⟨.project, "=é\t?".toList, none⟩, ⟨.order, [], none⟩, ⟨.filter .equals, [], some []⟩,
    ⟨.filter .notEquals, "日".toList, some "a  b=c".toList⟩]

theorem writableValue_nil : WritableValue [] :=
  ⟨rfl, nofun, fun m => by simp⟩

theorem writable_of_mem_oddSegments : ∀ s ∈ oddSegments, s.Writable := by
  have hValue : WritableValue "a  b=c".toList := by
    refine ⟨by decide, ?_, ?_⟩
    all_goals
      rintro (op | _ | _ | _)
      · cases op <;> decide
      all_goals decide
  intro s hs
  simp only [oddSegments, List.mem_cons, List.not_mem_nil, or_false] at hs
  rcases hs with rfl | rfl | rfl | rfl
  · exact ⟨by decide, by decide, nofun⟩
  · exact ⟨by decide, by decide, nofun⟩
  · refine ⟨by decide, by decide, fun v hv => ?_⟩
    obtain rfl := Option.some.inj hv
    exact writableValue_nil
  · refine ⟨by decide, by decide, fun v hv => ?_⟩
    obtain rfl := Option.some.inj hv
    exact hValue

/-- They are read back after a text that ends in a space. -/
theorem split_write_inverse_odd :
    (∀ m : Marker, ¬ [' ', m.char] <:+: "x=? ".toList) ∧ (∀ s ∈ oddSegments, s.Writable) ∧
    split "x=?  ?=é\t? ~ =  !日 a  b=c".toList = oddSegments := by
  have hBefore : ∀ m : Marker, ¬ [' ', m.char] <:+: "x=? ".toList := by
    rintro (op | _ | _ | _)
    · cases op <;> decide
    all_goals decide
  exact ⟨hBefore, writable_of_mem_oddSegments,
    split_write_inverse.1 _ oddSegments hBefore writable_of_mem_oddSegments⟩

end Segment

end TableTalk
