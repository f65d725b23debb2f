import Mathlib.Data.List.Basic
import Mathlib.Tactic.Push
import TableTalk.Proofs.Shortcut.Patterns

/-!
# Binding undoes writing

Texts in place of the keys of a pattern make a text, and matching the pattern against it is
meant to give the texts back.  `Pattern.write` is the one direction and `Pattern.bind` the
other.

What binding gives can always be written back (`exists_of_bindHoles`).  What was written
can be bound again if the values stand apart from the literals after them
(`bindHoles_writeHoles`).  Two things can go wrong otherwise, and `Pattern.Fits` rules them
out: a literal may be met before the end of the value in front of it, and a key directly
before another key takes nothing.  The values that binding gives always fit, so that the two
directions are inverse to each other.

Which texts are keys is not left to the definitions alone: a pattern is written out of
its literals and keys by percent signs in one way (`Pattern.source`), and `ofText` reads it
(`Pattern.source_ofText`).
-/

namespace TableTalk

/-! ### The first occurrence of a piece -/

namespace Text

variable {piece t a b rest : Text}

/-- The first occurrence of the piece in a text followed by the piece is the one that
follows. -/
def EndsAtFirst (piece a : Text) : Prop :=
  ∀ before after, a ++ piece = before ++ (piece ++ after) → a.length ≤ before.length

theorem cutAtPiece_of_after? (h : after? piece t = some rest) :
    cutAtPiece piece t = some ([], rest) := by
  cases t with
  | nil => rw [cutAtPiece, h, Option.map_some]
  | cons c t => rw [cutAtPiece, h]

/-- No occurrence at the start of a text, when the first one is further on. -/
theorem EndsAtFirst.after?_eq_none {c : Char} (h : EndsAtFirst piece (c :: a)) :
    after? piece (c :: a ++ (piece ++ b)) = none := by
  rw [Option.eq_none_iff_forall_ne_some]
  intro rest hAfter
  have hShort : piece.length ≤ (c :: a ++ piece).length := by
    rw [List.length_append]
    omega
  have hOpens : piece <+: c :: a ++ piece := by
    refine List.prefix_of_prefix_length_le ⟨rest, (eq_append_of_after? hAfter).symm⟩ ?_ hShort
    exact ⟨b, List.append_assoc _ _ _⟩
  obtain ⟨after, hAt⟩ := hOpens
  have hLength := h [] after hAt.symm
  simp at hLength

theorem EndsAtFirst.tail {c : Char} (h : EndsAtFirst piece (c :: a)) : EndsAtFirst piece a := by
  intro before after hAt
  have hLength := h (c :: before) after (congrArg (c :: ·) hAt)
  simpa using hLength

/-- A text is cut at the first occurrence of a piece, and nowhere else. -/
theorem cutAtPiece_eq_some_iff :
    cutAtPiece piece t = some (a, b) ↔ t = a ++ (piece ++ b) ∧ EndsAtFirst piece a := by
  constructor
  · intro h
    induction t generalizing a b with
    | nil =>
        obtain ⟨rest, hAfter, hSides⟩ := Option.map_eq_some_iff.mp h
        obtain ⟨rfl, rfl⟩ := Prod.mk.inj hSides
        refine ⟨?_, fun before after _ => Nat.zero_le _⟩
        rw [List.nil_append, eq_append_of_after? hAfter]
    | cons c t ih =>
        rw [cutAtPiece] at h
        split at h
        · rename_i rest hAfter
          obtain ⟨rfl, rfl⟩ := Prod.mk.inj (Option.some.inj h)
          refine ⟨?_, fun before after _ => Nat.zero_le _⟩
          rw [List.nil_append, eq_append_of_after? hAfter]
        · rename_i hNotHere
          obtain ⟨⟨a', b'⟩, hCut, hSides⟩ := Option.map_eq_some_iff.mp h
          obtain ⟨rfl, rfl⟩ := Prod.mk.inj hSides
          obtain ⟨rfl, hFirst⟩ := ih hCut
          refine ⟨rfl, fun before after hAt => ?_⟩
          rcases before with _ | ⟨x, before⟩
          · -- The piece would stand at the start, where it was looked for first.
            have hHere : c :: (a' ++ (piece ++ b')) = piece ++ (after ++ b') := by
              calc c :: (a' ++ (piece ++ b')) = c :: a' ++ piece ++ b' := by simp
                _ = piece ++ (after ++ b') := by rw [hAt]; simp
            rw [hHere, after?_append] at hNotHere
            cases hNotHere
          · have hRest := hFirst before after (List.cons.inj hAt).2
            simpa using hRest
  · rintro ⟨rfl, hFirst⟩
    induction a with
    | nil => exact cutAtPiece_of_after? (after?_append piece b)
    | cons c a ih =>
        have hNotHere := hFirst.after?_eq_none (b := b)
        rw [List.cons_append] at hNotHere ⊢
        rw [cutAtPiece, hNotHere]
        simp only [ih hFirst.tail, Option.map_some]

end Text

/-! ### The text of a pattern -/

namespace Pattern

variable {p : Pattern} {holes : List (Text × Text)} {bindings : List (Text × Text)}
variable {key t : Text} {value : Text → Text}

/-- The keys of a pattern, in order. -/
def keys (p : Pattern) : List Text :=
  p.holes.map Prod.fst

/-- The text a pattern is written as: every key between percent signs. -/
def source (p : Pattern) : Text :=
  p.lead ++ p.holes.flatMap fun hole => '%' :: hole.1 ++ '%' :: hole.2

/-- No key and no literal has a percent sign of its own. -/
structure IsPlain (p : Pattern) : Prop where
  lead : '%' ∉ p.lead
  keys : ∀ hole ∈ p.holes, '%' ∉ hole.1
  literals : ∀ hole ∈ p.holes, '%' ∉ hole.2

theorem not_mem_of_mem_splitOn {c : Char} {piece : Text} (h : piece ∈ t.splitOn c) :
    c ∉ piece := by
  induction t generalizing piece with
  | nil =>
      rw [List.mem_singleton.mp h]
      exact List.not_mem_nil
  | cons x t ih =>
      rw [List.splitOn_cons_eq_if_modifyHead] at h
      split at h
      · rcases List.mem_cons.mp h with rfl | hRest
        · exact List.not_mem_nil
        · exact ih hRest
      · rename_i hx
        obtain ⟨first, rest, hSplit⟩ := List.exists_cons_of_ne_nil (List.splitOn_ne_nil c t)
        rw [hSplit] at h ih
        rcases List.mem_cons.mp h with rfl | hRest
        · intro hMem
          rcases List.mem_cons.mp hMem with rfl | hMem
          · exact hx (beq_self_eq_true _)
          · exact ih List.mem_cons_self hMem
        · exact ih (List.mem_cons_of_mem _ hRest)

/-- Pairing up loses no piece; the percent sign after a last key may be missing. -/
theorem flatMap_pairUp (pieces : List Text) :
    let written := (pairUp pieces).flatMap fun hole => '%' :: hole.1 ++ '%' :: hole.2
    pieces.flatMap (['%'] ++ ·) = written ∨ pieces.flatMap (['%'] ++ ·) ++ ['%'] = written := by
  fun_induction pairUp pieces with
  | case1 => exact Or.inl rfl
  | case2 key => exact Or.inr (by simp)
  | case3 key literal rest ih =>
      rcases ih with hClosed | hOpen
      · refine Or.inl ?_
        rw [List.flatMap_cons, List.flatMap_cons, List.flatMap_cons, hClosed]
        simp
      · refine Or.inr ?_
        rw [List.flatMap_cons, List.flatMap_cons, List.flatMap_cons, ← hOpen]
        simp

/-- A hole is made of two pieces, or of a last one. -/
theorem mem_of_mem_pairUp {pieces : List Text} {hole : Text × Text} (h : hole ∈ pairUp pieces) :
    hole.1 ∈ pieces ∧ (hole.2 ∈ pieces ∨ hole.2 = []) := by
  fun_induction pairUp pieces with
  | case1 => cases h
  | case2 key =>
      rw [List.mem_singleton.mp h]
      exact ⟨List.mem_singleton_self key, Or.inr rfl⟩
  | case3 key literal rest ih =>
      rcases List.mem_cons.mp h with rfl | hRest
      · exact ⟨List.mem_cons_self, Or.inl (List.mem_cons_of_mem _ List.mem_cons_self)⟩
      · obtain ⟨hKey, hLiteral⟩ := ih hRest
        have hLater : ∀ {x : Text}, x ∈ rest → x ∈ key :: literal :: rest :=
          fun hx => List.mem_cons_of_mem _ (List.mem_cons_of_mem _ hx)
        exact ⟨hLater hKey, hLiteral.imp_left hLater⟩

/-- **Reading a pattern.**  A text is the source of the pattern read from it, up to a percent
sign that closes the last key, and percent signs stand nowhere else. -/
theorem source_ofText (t : Text) :
    (ofText t).IsPlain ∧ (t = (ofText t).source ∨ t ++ ['%'] = (ofText t).source) := by
  have hPieces : ['%'].intercalate (t.splitOn '%') = t := List.intercalate_splitOn '%'
  have hNone : ∀ piece ∈ t.splitOn '%', '%' ∉ piece := fun _ => not_mem_of_mem_splitOn
  obtain ⟨lead, rest, hSplit⟩ := List.exists_cons_of_ne_nil (List.splitOn_ne_nil '%' t)
  have hRead : ofText t = ⟨lead, pairUp rest⟩ := by
    unfold ofText
    rw [hSplit]
  rw [hSplit] at hPieces hNone
  have hText : t = lead ++ rest.flatMap (['%'] ++ ·) :=
    hPieces.symm.trans (Text.join_cons ['%'] lead rest)
  rw [hRead]
  refine ⟨⟨hNone lead List.mem_cons_self, fun hole hHole => ?_, fun hole hHole => ?_⟩, ?_⟩
  · exact hNone _ (List.mem_cons_of_mem _ (mem_of_mem_pairUp hHole).1)
  · rcases (mem_of_mem_pairUp hHole).2 with hPiece | hEmpty
    · exact hNone _ (List.mem_cons_of_mem _ hPiece)
    · rw [hEmpty]
      exact List.not_mem_nil
  · rw [hText, source]
    rcases flatMap_pairUp rest with hClosed | hOpen
    · exact Or.inl (by rw [hClosed])
    · exact Or.inr (by rw [List.append_assoc, hOpen])

/-! ### Writing and binding -/

/-- Texts in place of the keys of holes. -/
def writeHoles (value : Text → Text) (holes : List (Text × Text)) : Text :=
  holes.flatMap fun hole => value hole.1 ++ hole.2

/-- The text of a pattern with texts in place of its keys, all at once. -/
def write (value : Text → Text) (p : Pattern) : Text :=
  p.lead ++ writeHoles value p.holes

/-- The values can be found again between the literals: directly before another key there is
none, and before a literal the value ends where the literal first occurs. -/
def Fits (value : Text → Text) : List (Text × Text) → Prop
  | [] => True
  | (key, literal) :: holes =>
      (if literal = [] then holes ≠ [] → value key = []
        else Text.EndsAtFirst literal (value key)) ∧ Fits value holes

/-- The value of each key of some holes, in order. -/
def boundTo (value : Text → Text) (holes : List (Text × Text)) : List (Text × Text) :=
  holes.map fun hole => (hole.1, value hole.1)

theorem writeHoles_cons (value : Text → Text) (key literal : Text) (holes : List (Text × Text)) :
    writeHoles value ((key, literal) :: holes) =
      value key ++ (literal ++ writeHoles value holes) := by
  rw [writeHoles, List.flatMap_cons, List.append_assoc]
  rfl

/-- What was written with values that fit is bound to these values. -/
theorem bindHoles_writeHoles (h : Fits value holes) :
    bindHoles holes (writeHoles value holes) = some (boundTo value holes) := by
  fun_induction Fits value holes with
  | case1 => rfl
  | case2 key literal holes ih =>
      obtain ⟨hHead, hRest⟩ := h
      rw [writeHoles_cons]
      rcases literal with _ | ⟨c, literal⟩
      · rw [if_pos rfl] at hHead
        rcases holes with _ | ⟨next, holes⟩
        · -- The last key takes all that is left.
          simp [bindHoles, boundTo, writeHoles]
        · have hEmpty : value key = [] := hHead (List.cons_ne_nil _ _)
          have hBound : boundTo value ((key, []) :: next :: holes) =
              (key, []) :: boundTo value (next :: holes) := by
            rw [boundTo, List.map_cons, hEmpty]
            rfl
          rw [hEmpty, hBound, bindHoles, List.nil_append, List.nil_append, ih hRest,
            Option.map_some]
          exact List.cons_ne_nil _ _
      · rw [if_neg (List.cons_ne_nil _ _)] at hHead
        rw [bindHoles, Text.cutAtPiece_eq_some_iff.mpr ⟨rfl, hHead⟩]
        simp only [ih hRest, Option.map_some]
        rfl

theorem fits_congr {f g : Text → Text} (hSame : ∀ hole ∈ holes, f hole.1 = g hole.1)
    (h : Fits f holes) : Fits g holes := by
  induction holes with
  | nil => trivial
  | cons hole holes ih =>
      obtain ⟨key, literal⟩ := hole
      have hKey : f key = g key := hSame (key, literal) List.mem_cons_self
      obtain ⟨hHead, hRest⟩ := h
      rw [hKey] at hHead
      exact ⟨hHead, ih (fun hole hHole => hSame hole (List.mem_cons_of_mem _ hHole)) hRest⟩

/-- One value more, for a key that does not come again. -/
theorem exists_value_cons {literal v : Text} (hKey : key ∉ holes.map Prod.fst)
    (hFits : if literal = [] then holes ≠ [] → v = [] else Text.EndsAtFirst literal v)
    (h : Fits value holes) :
    ∃ value' : Text → Text, Fits value' ((key, literal) :: holes) ∧
      writeHoles value' ((key, literal) :: holes) =
        v ++ (literal ++ writeHoles value holes) ∧
      boundTo value' ((key, literal) :: holes) = (key, v) :: boundTo value holes := by
  let value' := Function.update value key v
  have hHere : value' key = v := Function.update_self key v value
  have hElsewhere : ∀ hole ∈ holes, value hole.1 = value' hole.1 := by
    intro hole hHole
    have hNe : hole.1 ≠ key := by
      rintro rfl
      exact hKey (List.mem_map_of_mem hHole)
    exact (Function.update_of_ne hNe v value).symm
  refine ⟨value', ⟨?_, fits_congr hElsewhere h⟩, ?_, ?_⟩
  · rw [hHere]
    exact hFits
  · rw [writeHoles_cons, hHere]
    have hRest : writeHoles value' holes = writeHoles value holes :=
      List.flatMap_congr fun hole hHole => by rw [hElsewhere hole hHole]
    rw [hRest]
  · rw [boundTo, List.map_cons, hHere]
    exact congrArg _ (List.map_congr_left fun hole hHole => by rw [hElsewhere hole hHole])

/-- Bindings of distinct keys fit, and writing them gives the text back. -/
theorem exists_of_bindHoles (hKeys : (holes.map Prod.fst).Nodup)
    (h : bindHoles holes t = some bindings) :
    ∃ value, Fits value holes ∧ writeHoles value holes = t ∧ boundTo value holes = bindings := by
  fun_induction bindHoles holes t generalizing bindings with
  | case1 rest hEmpty =>
      obtain rfl := Option.some.inj h
      exact ⟨fun _ => [], trivial, (List.isEmpty_iff.mp hEmpty).symm, rfl⟩
  | case2 => cases h
  | case3 key rest =>
      obtain rfl := Option.some.inj h
      exact ⟨fun _ => rest, ⟨fun hMore => absurd rfl hMore, trivial⟩, by simp [writeHoles], rfl⟩
  | case4 key holes rest hMore ih =>
      obtain ⟨bound, hBound, rfl⟩ := Option.map_eq_some_iff.mp h
      obtain ⟨hKey, hKeys⟩ := List.nodup_cons.mp hKeys
      obtain ⟨value, hFits, rfl, rfl⟩ := ih hKeys hBound
      have hNothing : if ([] : Text) = [] then holes ≠ [] → ([] : Text) = []
          else Text.EndsAtFirst [] [] := by simp
      exact exists_value_cons hKey hNothing hFits
  | case5 key c literal holes rest value rest' hCut ih =>
      obtain ⟨bound, hBound, rfl⟩ := Option.map_eq_some_iff.mp h
      obtain ⟨hKey, hKeys⟩ := List.nodup_cons.mp hKeys
      obtain ⟨rfl, hFirst⟩ := Text.cutAtPiece_eq_some_iff.mp hCut
      obtain ⟨values, hFits, rfl, rfl⟩ := ih hKeys hBound
      exact exists_value_cons hKey (by simpa using hFirst) hFits
  | case6 => cases h

/-! ### Filling -/

/-- The value bound to a key, where each key is bound to one value. -/
theorem valueOf_boundTo (value : Text → Text) (holes : List (Text × Text)) (key : Text) :
    valueOf (boundTo value holes) key =
      if key ∈ holes.map Prod.fst then some (value key) else none := by
  have hPairs : (boundTo value holes).reverse =
      (holes.map Prod.fst).reverse.map fun key => (key, value key) := by
    rw [boundTo, ← List.map_reverse, ← List.map_reverse, List.map_map]
    rfl
  rw [valueOf, hPairs]
  split
  · rename_i hKey
    exact List.lookup_graph value (List.mem_reverse.mpr hKey)
  · rename_i hKey
    rw [List.lookup_eq_none_iff]
    rintro pair hPair
    obtain ⟨other, hOther, rfl⟩ := List.mem_map.mp hPair
    rw [bne_iff_ne]
    rintro rfl
    exact hKey (List.mem_reverse.mp hOther)

/-- Holes are filled by writing, if all their keys have values. -/
theorem fillHoles_eq {bound : List Text} {value? : Text → Option Text}
    (hValue : ∀ key, value? key = if key ∈ bound then some (value key) else none) :
    fillHoles value? holes =
      if ∀ hole ∈ holes, hole.1 ∈ bound then some (writeHoles value holes) else none := by
  induction holes with
  | nil => simp [fillHoles, writeHoles]
  | cons hole holes ih =>
      obtain ⟨key, literal⟩ := hole
      have hAll : (∀ hole ∈ (key, literal) :: holes, hole.1 ∈ bound) ↔
          key ∈ bound ∧ ∀ hole ∈ holes, hole.1 ∈ bound := List.forall_mem_cons
      rw [fillHoles, hValue, ih]
      by_cases hKey : key ∈ bound
      · by_cases hRest : ∀ hole ∈ holes, hole.1 ∈ bound
        · rw [if_pos hKey, if_pos hRest, if_pos (hAll.mpr ⟨hKey, hRest⟩), writeHoles_cons]
          simp
        · rw [if_pos hKey, if_neg hRest, if_neg fun h => hRest (hAll.mp h).2]
          rfl
      · rw [if_neg hKey, if_neg fun h => hKey (hAll.mp h).1]
        rfl

end Pattern

/-! ### Shortcuts -/

namespace Shortcut

open Pattern (ofText)

/-- A message whose text after the name is bound becomes the output pattern, with the bound
values written into it all at once; there is no such message if a key of it is not bound. -/
theorem applyTo?_of_bind {s : Shortcut} {name t : Text} {value : Text → Text}
    (hName : ' ' ∉ name)
    (hBind : (ofText s.input).bind t = some (Pattern.boundTo value (ofText s.input).holes)) :
    s.applyTo? (name ++ ' ' :: t) =
      if ∀ key ∈ (ofText s.output).keys, key ∈ (ofText s.input).keys then
        some ((ofText s.output).write value) else none := by
  have hNoCut : ∀ x ∈ name, (x == ' ') = false := by
    intro x hx
    rw [beq_eq_false_iff_ne]
    rintro rfl
    exact hName hx
  have hFill : Pattern.fillHoles
      (Pattern.valueOf (Pattern.boundTo value (ofText s.input).holes)) (ofText s.output).holes =
        if ∀ hole ∈ (ofText s.output).holes, hole.1 ∈ (ofText s.input).keys then
          some (Pattern.writeHoles value (ofText s.output).holes) else none :=
    Pattern.fillHoles_eq (Pattern.valueOf_boundTo value (ofText s.input).holes)
  unfold applyTo?
  rw [Text.cutAt_append_cons hNoCut (beq_self_eq_true ' ')]
  simp only [Option.bind_eq_bind, Option.bind_some, hBind, Pattern.fill]
  rw [hFill]
  by_cases hAll : ∀ key ∈ (ofText s.output).keys, key ∈ (ofText s.input).keys
  · rw [if_pos hAll, if_pos (List.forall_mem_map.mp hAll)]
    rfl
  · rw [if_neg hAll, if_neg (mt List.forall_mem_map.mpr hAll)]
    rfl

end Shortcut

namespace Pattern

/-- **Binding undoes writing.**  Every text is the source of one pattern, apart from a percent
sign at the end.  Take a pattern with distinct keys.  If it can be bound along a text, each
key has a value, the values fit, and writing them in place of the keys gives exactly the text.
Every shortcut with this input pattern then makes its output pattern of the text, with the
values in place of the keys and not read again, unless a key of that pattern is not among the
bound ones.  Conversely, what is written with values that fit is bound to just these values. -/
theorem bind_write_inverse (pattern : Text) (hKeys : (ofText pattern).keys.Nodup) :
    (∀ text, (ofText text).IsPlain ∧
      (text = (ofText text).source ∨ text ++ ['%'] = (ofText text).source)) ∧
    (∀ t bindings, (ofText pattern).bind t = some bindings →
      ∃ value : Text → Text,
        bindings = (ofText pattern).keys.map (fun key => (key, value key)) ∧
        Fits value (ofText pattern).holes ∧ (ofText pattern).write value = t ∧
        ∀ s : Shortcut, s.input = pattern → ∀ name, ' ' ∉ name →
          (s.applyTo? (name ++ ' ' :: t) = none ↔
            ∃ key ∈ (ofText s.output).keys, key ∉ (ofText pattern).keys) ∧
          ∀ u, s.applyTo? (name ++ ' ' :: t) = some u → u = (ofText s.output).write value) ∧
    ∀ value, Fits value (ofText pattern).holes →
      (ofText pattern).bind ((ofText pattern).write value) =
        some ((ofText pattern).keys.map fun key => (key, value key)) := by
  have hBound : ∀ value, boundTo value (ofText pattern).holes =
      (ofText pattern).keys.map fun key => (key, value key) := by
    intro value
    rw [boundTo, keys, List.map_map]
    rfl
  refine ⟨source_ofText, fun t bindings hBind => ?_, fun value hFits => ?_⟩
  · obtain ⟨rest, hLead, hHoles⟩ := Option.bind_eq_some_iff.mp hBind
    obtain ⟨value, hFits, hWritten, rfl⟩ := exists_of_bindHoles hKeys hHoles
    refine ⟨value, hBound value, hFits, ?_, ?_⟩
    · rw [write, hWritten, ← Text.eq_append_of_after? hLead]
    · rintro s rfl name hName
      rw [Shortcut.applyTo?_of_bind hName hBind]
      split
      · rename_i hAll
        refine ⟨iff_of_false (Option.some_ne_none _) ?_, fun u hu => (Option.some.inj hu).symm⟩
        rintro ⟨key, hKey, hUnbound⟩
        exact hUnbound (hAll key hKey)
      · rename_i hSome
        push Not at hSome
        exact ⟨iff_of_true rfl hSome, fun u hu => by cases hu⟩
  · rw [bind, write, Text.after?_append, Option.bind_some, bindHoles_writeHoles hFits, hBound]

/-- A last key without its second percent sign, and two keys side by side. -/
def seat : Shortcut :=
  ⟨"a".toList, "for %who%%title% at %when".toList, "@house +N %title% +B %when%".toList⟩

/-- Values with percent signs of their own. -/
def seatValue (key : Text) : Text :=
  if key = "title".toList then "50%who%".toList
  else if key = "when".toList then "5% at 6".toList else []

theorem fits_seatValue : Fits seatValue (ofText seat.input).holes := by
  have hHoles : (ofText seat.input).holes =
      [("who".toList, []), ("title".toList, " at ".toList), ("when".toList, [])] := by
    decide +kernel
  have hTitle : Text.EndsAtFirst " at ".toList "50%who%".toList :=
    (Text.cutAtPiece_eq_some_iff.mp
      (by decide +kernel : Text.cutAtPiece " at ".toList "50%who% at ".toList =
        some ("50%who%".toList, []))).2
  rw [hHoles]
  exact ⟨fun _ => rfl, hTitle, fun h => absurd rfl h, trivial⟩

theorem seat_bind : (ofText seat.input).bind "for 50%who% at 5% at 6".toList =
    some [("who".toList, []), ("title".toList, "50%who%".toList),
      ("when".toList, "5% at 6".toList)] := by
  decide +kernel

/-- The values are bound again, and stand in the message as they are. -/
theorem bind_write_inverse_seat :
    (ofText seat.input).keys.Nodup ∧
    (ofText seat.input).bind ((ofText seat.input).write seatValue) =
      some ((ofText seat.input).keys.map fun key => (key, seatValue key)) ∧
    seat.applyTo? "@a for 50%who% at 5% at 6".toList =
      some "@house +N 50%who% +B 5% at 6".toList := by
  have hKeys : (ofText seat.input).keys = ["who".toList, "title".toList, "when".toList] := by
    decide +kernel
  have hOutput : ofText seat.output =
      ⟨"@house +N ".toList, [("title".toList, " +B ".toList), ("when".toList, [])]⟩ := by
    decide +kernel
  have hNodup : (ofText seat.input).keys.Nodup := by
    rw [hKeys]
    decide
  obtain ⟨-, hBound, hWritten⟩ := bind_write_inverse seat.input hNodup
  obtain ⟨value, hBindings, -, -, hApply⟩ := hBound _ _ seat_bind
  obtain ⟨hNone, hMessage⟩ := hApply seat rfl "@a".toList (by decide)
  refine ⟨hNodup, hWritten seatValue fits_seatValue, ?_⟩
  -- All keys of the output are bound, so there is a message.
  have hSome : seat.applyTo? ("@a".toList ++ ' ' :: "for 50%who% at 5% at 6".toList) ≠ none := by
    rw [ne_eq, hNone, hKeys, hOutput]
    decide
  obtain ⟨u, hu⟩ := Option.ne_none_iff_exists'.mp hSome
  rw [hKeys] at hBindings
  simp only [List.map_cons, List.cons.injEq, Prod.mk.injEq, true_and] at hBindings
  obtain ⟨-, hTitle, hWhen, -⟩ := hBindings
  have hFilled : (ofText seat.output).write value =
      "@house +N ".toList ++ (value "title".toList ++ " +B ".toList ++
        (value "when".toList ++ [] ++ [])) := by
    rw [hOutput]
    rfl
  refine hu.trans ?_
  rw [hMessage u hu, hFilled, ← hTitle, ← hWhen]
  rfl

end Pattern

end TableTalk
