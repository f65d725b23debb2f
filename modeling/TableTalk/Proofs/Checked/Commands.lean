import TableTalk.Proofs.Checked.Slices
import TableTalk.Proofs.Command.Signs
import TableTalk.Proofs.Query.Segments
import TableTalk.Proofs.Shortcut.Binding
import TableTalk.Proofs.Traversal

/-!
# Commands cut by offsets

Here commands are cut as a program cuts them that holds texts as bytes: it looks for a separator,
counts the bytes before it, and takes slices from and up to such numbers.  Arguments and passwords
go by the first and the last space, segments and pairs by the places of their marks, shortcuts by
the literals of their patterns and by the positions of pieces between percent signs.

None of this faults, and the results are those of the cuts themselves.  Two facts carry the proofs.

* A place is the size of the text before it, and a separator takes as many bytes as are passed
  over.  For a mark that is one byte (`Checked.piecesAt_markOffsets`), however many the characters
  around it take.
* A piece ends before the space of the next mark.  That space is none of its mark, so that
  neighbouring marks leave an empty piece and no slice with its ends out of order.
-/

namespace TableTalk.Checked

/-! ### Spaces -/

/-- The text from the first space on. -/
def arguments (t : Text) : Checked Text :=
  match Text.offset (Text.cutAt (· == ' ') t) with
  | none => .ok []
  | some i => t.slice i t.size

theorem arguments_eq (t : Text) : arguments t = .ok (Command.arguments t) := by
  unfold arguments Command.arguments
  cases hCut : Text.cutAt (· == ' ') t with
  | none =>
      have hNone := Text.cutAt_eq_none_iff.mp hCut
      have hAll : ∀ c ∈ t, (c != ' ') = true := fun c hc => by simpa using hNone c hc
      simp [Text.offset, List.dropWhile_eq_nil_iff.mpr hAll]
  | some sides =>
      obtain ⟨a, b⟩ := sides
      obtain ⟨c, hc, rfl, ha⟩ := Text.exists_of_cutAt hCut
      have hAll : ∀ x ∈ a, (x != ' ') = true := fun x hx => by simpa using ha x hx
      have hStop : (c :: b).dropWhile (· != ' ') = c :: b := by simpa using hc
      rw [List.dropWhile_append_of_pos hAll, hStop]
      exact Text.slice_from a (c :: b)

/-- A command without its password, and the password. -/
def splitPassword (t : Text) : Checked (Text × Text) :=
  match Text.offset (Text.cutAtLast (· == ' ') t) with
  | none => .ok (t, [])
  | some i => do
      match ← t.slice (i + 1) t.size with
      | '#' :: c :: password => return (Text.trimEnd (← t.slice 0 i), c :: password)
      | _ => return (t, [])

theorem encoded_length_space : (Text.encoded ' ').length = 1 :=
  Text.encoded_length_of_le (by decide)

theorem size_space : Text.size [' '] = 1 := by
  rw [Text.size_cons, encoded_length_space]
  rfl

theorem splitPassword_eq (t : Text) : splitPassword t = .ok (Command.splitPassword t) := by
  unfold splitPassword Command.splitPassword
  cases hCut : Text.cutAtLast (· == ' ') t with
  | none => rfl
  | some sides =>
      obtain ⟨a, b⟩ := sides
      obtain ⟨c, hc, rfl, -⟩ := Text.exists_of_cutAtLast hCut
      obtain rfl : c = ' ' := by simpa using hc
      have hLast : Text.slice (a ++ ' ' :: b) (a.size + 1) (Text.size (a ++ ' ' :: b)) = .ok b := by
        rw [← size_space]
        exact Text.slice_after a [' '] b
      simp only [Text.offset, Option.map_some, hLast, Text.slice_to, ok_bind]
      split
      · rfl
      · rename_i hOther
        split
        · rename_i command c password hSides
          exact absurd (Prod.mk.inj (Option.some.inj hSides)).2 (hOther c password)
        · rfl

/-! ### Marks -/

section Marks

variable {α : Type} {mark? : Char → Option α}

/-- The characters of a text, each with the number of bytes before it; `n` bytes stand before the
text. -/
def charsFrom : ℕ → Text → List (ℕ × Char)
  | _, [] => []
  | n, c :: t => (n, c) :: charsFrom (n + (Text.encoded c).length) t

/-- The offsets of the marks that follow a space, with the marks. -/
def markOffsets (mark? : Char → Option α) (n : ℕ) (t : Text) : List (ℕ × α) :=
  ((charsFrom n t).zip (t.drop 1)).filterMap fun p =>
    if p.1.2 = ' ' then (mark? p.2).map (p.1.1 + 1, ·) else none

/-- Where the piece before some marks ends: before the space of the first one, or with the text. -/
def pieceEnd (t : Text) : List (ℕ × α) → Checked ℕ
  | [] => .ok t.size
  | (0, _) :: _ => .error .slice
  | (i + 1, _) :: _ => .ok i

/-- The pieces of the marks at some offsets: each from behind the mark to the next one. -/
def piecesAt (t : Text) : List (ℕ × α) → Checked (List (α × Text))
  | [] => .ok []
  | (i, m) :: rest => do
      let piece ← t.slice (i + 1) (← pieceEnd t rest)
      let more ← piecesAt t rest
      return (m, piece) :: more

theorem markOffsets_cons_cons (n : ℕ) (c d : Char) (t : Text) :
    markOffsets mark? n (c :: d :: t) =
      ((if c = ' ' then mark? d else none).map (n + 1, ·)).toList ++
        markOffsets mark? (n + (Text.encoded c).length) (d :: t) := by
  simp only [markOffsets, charsFrom, List.drop_succ_cons, List.drop_zero, List.zip_cons_cons,
    List.filterMap_cons]
  by_cases hc : c = ' '
  · rw [if_pos hc, if_pos hc]
    cases mark? d <;> rfl
  · rw [if_neg hc, if_neg hc]
    rfl

theorem markOffsets_of_ne {c : Char} (hc : c ≠ ' ') (n : ℕ) (t : Text) :
    markOffsets mark? n (c :: t) = markOffsets mark? (n + (Text.encoded c).length) t := by
  rcases t with _ | ⟨d, t⟩
  · rfl
  · rw [markOffsets_cons_cons, if_neg hc]
    rfl

/-- A text begins with what stands before its first mark. -/
theorem cutAtMarks_prefix (mark? : Char → Option α) (t : Text) :
    (Text.cutAtMarks mark? t).1 <+: t := by
  fun_induction Text.cutAtMarks mark? t with
  | case1 => exact List.prefix_rfl
  | case2 => exact List.prefix_rfl
  | case3 => exact List.nil_prefix
  | case4 c d t hNone ih => exact List.cons_prefix_cons.mpr ⟨rfl, ih⟩

/-- **Marks are cut at without a fault.**  Behind any text, the offsets of marks lead to the pieces
that the marks cut, and the first of them to the end of what stands before. -/
theorem piecesAt_markOffsets (hSpace : mark? ' ' = none)
    (hByte : ∀ c m, mark? c = some m → c.toNat ≤ 127) (t before : Text) :
    pieceEnd (before ++ t) (markOffsets mark? before.size t) =
        .ok (Text.size (before ++ (Text.cutAtMarks mark? t).1)) ∧
      piecesAt (before ++ t) (markOffsets mark? before.size t) =
        .ok (Text.cutAtMarks mark? t).2 := by
  -- The induction is on the rest of the text; what has been passed over is `before`.
  fun_induction Text.cutAtMarks mark? t generalizing before with
  | case1 => exact ⟨rfl, rfl⟩
  | case2 c => exact ⟨rfl, rfl⟩
  | case3 c d t m hMark ih =>
      split at hMark
      · rename_i hc
        rw [hc]
        have hd : d ≠ ' ' := by
          rintro rfl
          rw [hSpace] at hMark
          cases hMark
        have hSize : Text.size (before ++ [' ', d]) = before.size + 1 + 1 := by
          rw [Text.size_append, Text.size_cons, Text.size_cons, encoded_length_space,
            Text.encoded_length_of_le (hByte d m hMark)]
          rfl
        have hText : before ++ ' ' :: d :: t = before ++ [' ', d] ++ t := by simp
        obtain ⟨hEnd, hMore⟩ := ih (before ++ [' ', d])
        obtain ⟨back, hBack⟩ := cutAtMarks_prefix mark? t
        have hPiece : Text.slice (before ++ [' ', d] ++ t) (before.size + 1 + 1)
            (Text.size (before ++ [' ', d] ++ (Text.cutAtMarks mark? t).1)) =
              .ok (Text.cutAtMarks mark? t).1 := by
          rw [← hSize]
          exact Text.slice_eq_ok_iff.mpr ⟨_, back, by rw [List.append_assoc _ _ back, hBack], rfl, rfl⟩
        rw [hSize] at hEnd hMore
        rw [markOffsets_cons_cons, if_pos rfl, hMark, markOffsets_of_ne hd, encoded_length_space,
          Text.encoded_length_of_le (hByte d m hMark), hText]
        refine ⟨by simp [pieceEnd], ?_⟩
        simp only [Option.map_some, Option.toList_some, List.singleton_append, piecesAt, hEnd,
          hPiece, hMore, ok_bind]
        rfl
      · cases hMark
  | case4 c d t hNone ih =>
      have hSize : Text.size (before ++ [c]) = before.size + (Text.encoded c).length := by
        rw [Text.size_append, Text.size_cons]
        rfl
      have hText : before ++ c :: d :: t = before ++ [c] ++ d :: t := by simp
      obtain ⟨hEnd, hMore⟩ := ih (before ++ [c])
      rw [hSize] at hEnd hMore
      rw [markOffsets_cons_cons, hNone, hText]
      exact ⟨by simpa using hEnd, hMore⟩

end Marks

/-- The segments of query arguments. -/
def segments (args : Text) : Checked (List Segment) := do
  let pieces ← piecesAt args (markOffsets Marker.ofChar? 0 args)
  return pieces.map fun s => Segment.ofBody s.1 s.2

theorem segments_eq (args : Text) : segments args = .ok (Segment.split args) := by
  have hByte : ∀ c m, Marker.ofChar? c = some m → c.toNat ≤ 127 := by
    intro c m h
    rw [Marker.ofChar?_eq_some_iff.mp h]
    rcases m with op | _ | _ | _
    · cases op <;> decide
    all_goals decide
  have hPieces := (piecesAt_markOffsets rfl hByte args []).2
  rw [List.nil_append] at hPieces
  unfold segments Segment.split
  rw [Text.size_nil] at hPieces
  rw [hPieces, Segment.cutAtMarkers_eq]
  rfl

/-- The pieces that a plus sign opens. -/
def pieces (args : Text) : Checked (List Text) := do
  let signs := markOffsets Add.sign? 0 args
  let signs ← if args.head? = some '+' then insertAt signs 0 (0, ()) else .ok signs
  let pieces ← piecesAt args signs
  return pieces.map Prod.snd

theorem pieces_eq (args : Text) : pieces args = .ok (Add.pieces args) := by
  have hByte : ∀ c m, Add.sign? c = some m → c.toNat ≤ 127 := by
    intro c m h
    unfold Add.sign? at h
    split at h
    · rename_i hc
      rw [hc]
      decide
    · cases h
  have hSigns := piecesAt_markOffsets rfl hByte args []
  rw [List.nil_append, List.nil_append, Text.size_nil] at hSigns
  obtain ⟨hEnd, hPieces⟩ := hSigns
  unfold pieces Add.pieces
  rw [Add.cutAtSigns_eq]
  by_cases hOpen : args.head? = some '+'
  · -- The first piece is opened by a sign that no space precedes.
    obtain ⟨t, rfl⟩ := List.head?_eq_some_iff.mp hOpen
    obtain ⟨back, hBack⟩ := cutAtMarks_prefix Add.sign? t
    have hPlus : Text.size ['+'] = 1 := by
      rw [Text.size_cons, Text.encoded_length_of_le (by decide)]
      rfl
    have hFirst : Text.slice ('+' :: t) 1 (Text.size ('+' :: (Text.cutAtMarks Add.sign? t).1)) =
        .ok (Text.cutAtMarks Add.sign? t).1 :=
      Text.slice_eq_ok_iff.mpr ⟨['+'], back, by simp [hBack], hPlus, rfl⟩
    rw [Text.cutAtMarks_cons (by simp)] at hEnd hPieces ⊢
    simp only [if_pos hOpen, insertAt_eq_ok (Nat.zero_le _), List.insertIdx_zero, piecesAt, hEnd,
      hPieces, hFirst, ok_bind]
    rfl
  · have hBefore : ∀ first, (Text.cutAtMarks Add.sign? args).1 ≠ '+' :: first := by
      intro first hFirst
      obtain ⟨back, hBack⟩ := cutAtMarks_prefix Add.sign? args
      rw [hFirst] at hBack
      exact hOpen (by rw [← hBack]; rfl)
    simp only [if_neg hOpen, hPieces, ok_bind]
    rfl

/-- The pairs of an add. -/
def pairs (args : Text) : Checked (Except Rejection (List (Text × Text))) := do
  return (← pieces args).mapM Add.pair

theorem pairs_eq (args : Text) : pairs args = .ok (Add.pairs args) := by
  rw [pairs, pieces_eq]
  rfl

/-! ### Patterns -/

/-- Bind the keys of a pattern along a text.  The pieces of the pattern are literals at even
positions and keys at odd ones; the keys are taken from a position on. -/
def bindFrom (pattern : List Text) (i : ℕ) (t : Text) : Checked (Option (List (Text × Text))) :=
  if i < pattern.length then do
    let key ← item pattern i
    match pattern[i + 1]?.getD [] with
    | [] =>
        if pattern.length ≤ i + 2 then
          return (← bindFrom pattern (i + 2) []).map ((key, t) :: ·)
        else return (← bindFrom pattern (i + 2) t).map ((key, []) :: ·)
    | c :: literal =>
        match Text.offset (Text.cutAtPiece (c :: literal) t) with
        | none => return none
        | some j => do
            let value ← t.slice 0 j
            let rest ← t.slice (j + Text.size (c :: literal)) t.size
            return (← bindFrom pattern (i + 2) rest).map ((key, value) :: ·)
  else return if t.isEmpty then some [] else none
termination_by pattern.length - i

/-- The bindings of a pattern along a text. -/
def bind (pattern t : Text) : Checked (Option (List (Text × Text))) := do
  let pieces := pattern.splitOn '%'
  match Text.after? (← item pieces 0) t with
  | none => return none
  | some rest => bindFrom pieces 1 rest

/-- A key directly before another key takes nothing. -/
theorem bindHoles_empty (key : Text) {holes : List (Text × Text)} (h : holes ≠ []) (t : Text) :
    Pattern.bindHoles ((key, []) :: holes) t =
      (Pattern.bindHoles holes t).map ((key, []) :: ·) := by
  rw [Pattern.bindHoles]
  exact h

theorem pairUp_ne_nil {pieces : List Text} (h : pieces ≠ []) : Pattern.pairUp pieces ≠ [] := by
  rcases pieces with _ | ⟨key, _ | ⟨literal, rest⟩⟩
  · exact absurd rfl h
  · exact List.cons_ne_nil _ _
  · exact List.cons_ne_nil _ _

/-- The keys at odd positions are bound as holes are. -/
theorem bindFrom_eq (pattern : List Text) (i : ℕ) (t : Text) :
    bindFrom pattern i t = .ok (Pattern.bindHoles (Pattern.pairUp (pattern.drop i)) t) := by
  fun_induction bindFrom pattern i t with
  | case1 i t hKey _ _ ih =>
      have hItem : item pattern i = .ok pattern[i] :=
        item_eq_ok_iff.mpr (List.getElem?_eq_getElem hKey)
      rw [hItem, ok_bind, List.drop_eq_getElem_cons hKey]
      cases hNext : pattern[i + 1]? with
      | none =>
          have hLength : pattern.length ≤ i + 1 := List.getElem?_eq_none_iff.mp hNext
          rw [List.drop_eq_nil_of_le hLength, Option.getD_none]
          dsimp only
          rw [if_pos (by omega), ih, List.drop_eq_nil_of_le (by omega)]
          rfl
      | some literal =>
          obtain ⟨hLength, rfl⟩ := List.getElem?_eq_some_iff.mp hNext
          rw [List.drop_eq_getElem_cons hLength, Pattern.pairUp, Option.getD_some]
          rcases pattern[i + 1] with _ | ⟨c, literal⟩
          · dsimp only
            split
            · rename_i hLast
              rw [ih, List.drop_eq_nil_of_le hLast]
              rfl
            · rename_i hMore
              have hRest : pattern.drop (i + 2) ≠ [] := by
                rw [Ne, List.drop_eq_nil_iff]
                exact hMore
              rw [ih, bindHoles_empty _ (pairUp_ne_nil hRest)]
              rfl
          · dsimp only
            rw [Pattern.bindHoles]
            cases hCut : Text.cutAtPiece (c :: literal) t with
            | none => rfl
            | some sides =>
                obtain ⟨value, rest⟩ := sides
                obtain ⟨rfl, -⟩ := Text.cutAtPiece_eq_some_iff.mp hCut
                simp only [Text.offset, Option.map_some, Text.slice_to, Text.slice_after, ih,
                  ok_bind]
                rfl
  | case2 i t hEnd =>
      rw [List.drop_eq_nil_of_le (by omega)]
      rfl

theorem bind_eq (pattern t : Text) : bind pattern t = .ok ((Pattern.ofText pattern).bind t) := by
  unfold bind Pattern.ofText
  cases hPieces : pattern.splitOn '%' with
  | nil => exact absurd hPieces (List.splitOn_ne_nil _ _)
  | cons lead rest =>
      have hItem : item (lead :: rest) 0 = .ok lead := rfl
      simp only [hItem, ok_bind, Pattern.bind, bindFrom_eq]
      cases Text.after? lead t with
      | none => rfl
      | some left => rfl

/-! ### Shortcuts -/

/-- The message a shortcut makes of a message. -/
def applyTo? (s : Shortcut) (message : Text) : Checked (Option Text) :=
  match Text.cutAt (· == ' ') message with
  | none => .ok none
  | some (_, args) => do
      match ← bind s.input args with
      | none => return none
      | some bindings => return (Pattern.ofText s.output).fill (Pattern.valueOf bindings)

theorem applyTo?_eq (s : Shortcut) (message : Text) :
    applyTo? s message = .ok (s.applyTo? message) := by
  unfold applyTo? Shortcut.applyTo?
  cases Text.cutAt (· == ' ') message with
  | none => rfl
  | some sides =>
      simp only [bind_eq, ok_bind, Option.bind_eq_bind, Option.bind_some]
      cases (Pattern.ofText s.input).bind sides.2 with
      | none => rfl
      | some bindings => rfl

/-- One step from a message. -/
def step? (shortcuts : List Shortcut) (message : Text) : Checked (Option Text) :=
  shortcuts.findSomeM? fun s =>
    if s.name = Command.targetName message then do
      match ← applyTo? s message with
      | some next => return if Command.isCommand next then some (Text.trim next) else none
      | none => return none
    else return none

theorem step?_eq (shortcuts : List Shortcut) (message : Text) :
    step? shortcuts message = .ok (Shortcut.step? shortcuts message) := by
  refine Traversal.findSomeM?_eq_pure_findSome? fun s _ => ?_
  split
  · rw [applyTo?_eq, ok_bind]
    cases s.applyTo? message with
    | none => rfl
    | some next => rfl
  · rfl

/-- Take at most so many steps from a message, each name once. -/
def expandFrom (shortcuts : List Shortcut) : ℕ → List Text → Text → Checked Text
  | 0, _, message => return message
  | limit + 1, used, message =>
      if used.contains (Command.targetName message) then return message
      else do
        match ← step? shortcuts message with
        | some next => expandFrom shortcuts limit (Command.targetName message :: used) next
        | none => return message

theorem expandFrom_eq (shortcuts : List Shortcut) (limit : ℕ) (used : List Text)
    (message : Text) : expandFrom shortcuts limit used message =
      .ok (Shortcut.expandFrom shortcuts limit used message) := by
  fun_induction Shortcut.expandFrom shortcuts limit used message with
  | case1 used message => rfl
  | case2 limit used message hUsed => rw [expandFrom, if_pos hUsed]; rfl
  | case3 limit used message hFresh next hStep ih =>
      rw [expandFrom, if_neg hFresh, step?_eq, hStep]
      exact ih
  | case4 limit used message hFresh hStep =>
      rw [expandFrom, if_neg hFresh, step?_eq, hStep]
      rfl

/-- Expand a message through the shortcuts, with at most `depth` steps. -/
def expand (shortcuts : List Shortcut) (depth : ℕ) (message : Text) : Checked Text :=
  expandFrom shortcuts (min shortcuts.length depth) [] (Text.trim message)

theorem expand_eq (shortcuts : List Shortcut) (depth : ℕ) (message : Text) :
    expand shortcuts depth message = .ok (Shortcut.expand shortcuts depth message) :=
  expandFrom_eq shortcuts _ [] _

end TableTalk.Checked
