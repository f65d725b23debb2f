import Mathlib.Data.List.Chain
import Mathlib.Data.List.Induction
import Mathlib.Data.List.Perm.Subperm
import TableTalk.Proofs.Shortcut.Expansion

/-!
# Why an expansion stops where it does

The texts that an expansion passes through form a `Chain`: each is what one rewriting makes
of the one before, and no target name is rewritten twice.  A rewriting is said here without
the search for it (`Rewrites`): of the shortcuts of a name, the first that gives a command
decides, and those before it give none.

A chain goes on as long as it can.  `Ends` lists the three ways it can come to an end: the
depth is used up, the name at hand was rewritten before, or no shortcut of that name gives a
command.  The number of shortcuts, by which the expansion is cut off as well, is not one of
them.  A chain of that length has rewritten every name there is, as its names are all
different (`Chain.isStuck_of_length_eq`).

The existence of the chain is an induction on the steps that are left, where the chain so
far is the invariant (`exists_chain_expandFrom`).  Its uniqueness is an induction on the
chain: the expansion runs along every chain (`Chain.expandFrom_eq`).  Together they make
`Shortcut.expand_explained`.
-/

namespace TableTalk.Shortcut

variable {shortcuts : List Shortcut} {start t u last : Text} {rewritten : List Text}
  {depth limit : Nat}

/-! ### One rewriting -/

/-- No shortcut of the name of a text makes a command of it. -/
def IsStuck (shortcuts : List Shortcut) (t : Text) : Prop :=
  ∀ s ∈ shortcuts, s.name = Command.targetName t →
    ∀ u, s.applyTo? t = some u → Command.isCommand u = false

/-- The first shortcut of the name of a text that makes a command of it gives the next text,
which is that command trimmed. -/
inductive Rewrites (shortcuts : List Shortcut) (t : Text) : Text → Prop
  | first {front back : List Shortcut} {s : Shortcut} {command : Text}
      (hList : shortcuts = front ++ s :: back) (hFront : IsStuck front t)
      (hName : s.name = Command.targetName t) (hApply : s.applyTo? t = some command)
      (hCommand : Command.isCommand command = true) :
      Rewrites shortcuts t (Text.trim command)

theorem command?_eq_none_iff {s : Shortcut} :
    s.command? t = none ↔ ∀ u, s.applyTo? t = some u → Command.isCommand u = false := by
  simp [command?, Option.filter_eq_none_iff]

/-- A shortcut passes a text on if it has another name or gives no command. -/
theorem isStuck_iff_forall : IsStuck shortcuts t ↔ ∀ s ∈ shortcuts,
    (if s.name = Command.targetName t then (s.command? t).map Text.trim else none) = none := by
  refine forall₂_congr fun s _ => ?_
  by_cases hName : s.name = Command.targetName t
  · rw [if_pos hName, Option.map_eq_none_iff, command?_eq_none_iff]
    exact forall_prop_of_true hName
  · rw [if_neg hName]
    exact iff_of_true (fun h => absurd h hName) rfl

theorem step?_eq_none_iff : step? shortcuts t = none ↔ IsStuck shortcuts t := by
  rw [step?_eq, List.findSome?_eq_none_iff, isStuck_iff_forall]

theorem step?_eq_some_iff : step? shortcuts t = some u ↔ Rewrites shortcuts t u := by
  rw [step?_eq, List.findSome?_eq_some_iff]
  constructor
  · rintro ⟨front, s, back, hList, hFound, hFront⟩
    by_cases hName : s.name = Command.targetName t
    · rw [if_pos hName] at hFound
      obtain ⟨command, hGives, rfl⟩ := Option.map_eq_some_iff.mp hFound
      obtain ⟨hApply, hCommand⟩ := command?_eq_some_iff.mp hGives
      exact .first hList (isStuck_iff_forall.mpr hFront) hName hApply hCommand
    · rw [if_neg hName] at hFound
      cases hFound
  · rintro ⟨hList, hFront, hName, hApply, hCommand⟩
    refine ⟨_, _, _, hList, ?_, isStuck_iff_forall.mp hFront⟩
    rw [if_pos hName, command?_eq_some_iff.mpr ⟨hApply, hCommand⟩, Option.map_some]

theorem Rewrites.trim_eq (h : Rewrites shortcuts t u) : Text.trim u = u :=
  trim_of_step? (step?_eq_some_iff.mpr h)

/-- A rewriting ends in a text that opens with an at sign. -/
theorem Rewrites.head?_eq (h : Rewrites shortcuts t u) : u.head? = some '@' := by
  cases h with
  | first hList hFront hName hApply hCommand =>
      obtain ⟨rest, rfl⟩ := Command.exists_of_isCommand hCommand
      rw [Text.trim_cons rfl]
      rfl

theorem Rewrites.exists_name (h : Rewrites shortcuts t u) :
    ∃ s ∈ shortcuts, s.name = Command.targetName t := by
  cases h with
  | first hList hFront hName hApply hCommand =>
      exact ⟨_, hList ▸ List.mem_append_right _ List.mem_cons_self, hName⟩

/-! ### Chains -/

/-- The target names of texts. -/
def targetNames (texts : List Text) : List Text :=
  texts.map Command.targetName

@[simp] theorem targetNames_concat (texts : List Text) (t : Text) :
    targetNames (texts ++ [t]) = targetNames texts ++ [Command.targetName t] :=
  List.map_append

/-- The texts from a message on, each rewritten to the next, up to a last one.  No name is
rewritten twice. -/
structure Chain (shortcuts : List Shortcut) (start : Text) (rewritten : List Text)
    (last : Text) : Prop where
  head?_eq : (rewritten ++ [last]).head? = some start
  isChain : (rewritten ++ [last]).IsChain (Rewrites shortcuts)
  nodup_names : (targetNames rewritten).Nodup

theorem chain_nil_iff : Chain shortcuts start [] last ↔ last = start := by
  constructor
  · intro h
    exact Option.some.inj h.head?_eq
  · rintro rfl
    exact ⟨rfl, .singleton _, .nil⟩

/-- One rewriting more. -/
theorem chain_concat_iff : Chain shortcuts start (rewritten ++ [t]) u ↔
    Chain shortcuts start rewritten t ∧ Command.targetName t ∉ targetNames rewritten ∧
      Rewrites shortcuts t u := by
  -- Each of the three conditions is a condition on the chain before and one on its end.
  have hHead : (rewritten ++ [t] ++ [u]).head? = (rewritten ++ [t]).head? := by
    simp
  have hStep : (rewritten ++ [t] ++ [u]).IsChain (Rewrites shortcuts) ↔
      (rewritten ++ [t]).IsChain (Rewrites shortcuts) ∧ Rewrites shortcuts t u := by
    simp
  have hNames : (targetNames (rewritten ++ [t])).Nodup ↔
      (targetNames rewritten).Nodup ∧ Command.targetName t ∉ targetNames rewritten := by
    rw [targetNames_concat, List.nodup_append_comm, List.singleton_append, List.nodup_cons]
    exact and_comm
  constructor
  · rintro ⟨hStart, hChain, hNodup⟩
    rw [hHead] at hStart
    rw [hStep] at hChain
    rw [hNames] at hNodup
    exact ⟨⟨hStart, hChain.1, hNodup.1⟩, hNodup.2, hChain.2⟩
  · rintro ⟨⟨hStart, hChain, hNodup⟩, hFresh, hRewrites⟩
    exact ⟨hHead.trans hStart, hStep.mpr ⟨hChain, hRewrites⟩, hNames.mpr ⟨hNodup, hFresh⟩⟩

namespace Chain

/-- The texts of a chain are trimmed if the first one is. -/
theorem trim_last (h : Chain shortcuts start rewritten last) (hStart : Text.trim start = start) :
    Text.trim last = last := by
  rcases List.eq_nil_or_concat rewritten with rfl | ⟨done, t, rfl⟩
  · rw [chain_nil_iff.mp h, hStart]
  · rw [List.concat_eq_append, chain_concat_iff] at h
    exact h.2.2.trim_eq

/-- The texts of a chain open with an at sign if the first one does. -/
theorem head?_of_mem (h : Chain shortcuts start rewritten last) (hStart : start.head? = some '@') :
    ∀ t ∈ rewritten ++ [last], t.head? = some '@' := by
  induction rewritten using List.reverseRecOn generalizing last with
  | nil =>
      intro t ht
      rw [List.mem_singleton.mp ht, chain_nil_iff.mp h, hStart]
  | append_singleton done u ih =>
      obtain ⟨hDone, -, hRewrites⟩ := chain_concat_iff.mp h
      intro t ht
      rcases List.mem_append.mp ht with hBefore | hLast
      · exact ih hDone t hBefore
      · rw [List.mem_singleton.mp hLast, hRewrites.head?_eq]

/-- A name that is rewritten is the name of a shortcut. -/
theorem targetNames_subset (h : Chain shortcuts start rewritten last) :
    targetNames rewritten ⊆ shortcuts.map Shortcut.name := by
  induction rewritten using List.reverseRecOn generalizing last with
  | nil => exact List.nil_subset _
  | append_singleton done t ih =>
      obtain ⟨hDone, -, hRewrites⟩ := chain_concat_iff.mp h
      obtain ⟨s, hs, hName⟩ := hRewrites.exists_name
      intro name hMem
      rw [targetNames_concat, List.mem_append, List.mem_singleton] at hMem
      rcases hMem with hBefore | hLast
      · exact ih hDone hBefore
      · rw [hLast, ← hName]
        exact List.mem_map_of_mem hs

/-- A chain with as many rewritings as there are shortcuts has rewritten every name, so that
no shortcut has a new one. -/
theorem isStuck_of_length_eq (h : Chain shortcuts start rewritten last)
    (hLength : rewritten.length = shortcuts.length)
    (hFresh : Command.targetName last ∉ targetNames rewritten) : IsStuck shortcuts last := by
  -- Different names of shortcuts, and as many of them as there are shortcuts: all of them.
  have hAll : (targetNames rewritten).Perm (shortcuts.map Shortcut.name) := by
    refine (h.nodup_names.subperm h.targetNames_subset).perm_of_length_le ?_
    rw [targetNames, List.length_map, List.length_map, hLength]
  intro s hs hName
  refine absurd (hAll.mem_iff.mpr ?_) hFresh
  rw [← hName]
  exact List.mem_map_of_mem hs

end Chain

/-! ### The end of a chain -/

/-- What ends a chain of at most `depth` rewritings. -/
inductive Ends (shortcuts : List Shortcut) (depth : Nat) (rewritten : List Text)
    (last : Text) : Prop
  /-- The depth is used up. -/
  | depth (hLength : rewritten.length = depth)
  /-- The name of the last text was rewritten before. -/
  | name (hUsed : Command.targetName last ∈ targetNames rewritten)
  /-- No shortcut of that name gives a command. -/
  | stuck (hStuck : IsStuck shortcuts last)

/-- Whatever cuts a chain off at the number of shortcuts is one of the other ends. -/
theorem Ends.of_min (hChain : Chain shortcuts start rewritten last)
    (h : Ends shortcuts (min shortcuts.length depth) rewritten last) :
    Ends shortcuts depth rewritten last := by
  cases h with
  | depth hLength =>
      by_cases hDepth : depth ≤ shortcuts.length
      · exact .depth (hLength.trans (min_eq_right hDepth))
      · by_cases hUsed : Command.targetName last ∈ targetNames rewritten
        · exact .name hUsed
        · exact .stuck (hChain.isStuck_of_length_eq (by omega) hUsed)
  | name hUsed => exact .name hUsed
  | stuck hStuck => exact .stuck hStuck

/-- One step of an expansion whose name is not used up. -/
theorem expandFrom_of_rewrites (hFresh : Command.targetName t ∉ targetNames rewritten)
    (hRewrites : Rewrites shortcuts t u) :
    expandFrom shortcuts (limit + 1) (targetNames rewritten).reverse t =
      expandFrom shortcuts limit (targetNames (rewritten ++ [t])).reverse u := by
  rw [expandFrom, step?_eq_some_iff.mpr hRewrites, targetNames_concat, List.reverse_concat, if_neg]
  simpa using hFresh

/-- Where a chain ends the expansion ends as well. -/
theorem expandFrom_of_ends (h : Ends shortcuts depth rewritten last) :
    expandFrom shortcuts (depth - rewritten.length) (targetNames rewritten).reverse last = last := by
  cases hLeft : depth - rewritten.length with
  | zero => rfl
  | succ left =>
      rw [expandFrom]
      cases h with
      -- A chain of full length leaves no step.
      | depth hLength => omega
      | name hUsed => rw [if_pos (by simpa using hUsed)]
      | stuck hStuck => rw [step?_eq_none_iff.mpr hStuck, ite_self]

/-- An expansion runs along every chain from its text. -/
theorem Chain.expandFrom_eq (h : Chain shortcuts start rewritten last)
    (hLength : rewritten.length ≤ depth) :
    expandFrom shortcuts depth [] start =
      expandFrom shortcuts (depth - rewritten.length) (targetNames rewritten).reverse last := by
  induction rewritten using List.reverseRecOn generalizing last with
  | nil =>
      rw [chain_nil_iff.mp h]
      rfl
  | append_singleton done t ih =>
      obtain ⟨hDone, hFresh, hRewrites⟩ := chain_concat_iff.mp h
      rw [List.length_append, List.length_singleton] at hLength ⊢
      have hLeft : depth - done.length = depth - (done.length + 1) + 1 := by omega
      rw [ih hDone (by omega), hLeft, expandFrom_of_rewrites hFresh hRewrites]

/-- An expansion that has come along a chain goes on to the end of a chain. -/
theorem exists_chain_expandFrom (limit : Nat) (h : Chain shortcuts start rewritten t) :
    ∃ all, Chain shortcuts start all
        (expandFrom shortcuts limit (targetNames rewritten).reverse t) ∧
      all.length ≤ rewritten.length + limit ∧
      Ends shortcuts (rewritten.length + limit) all
        (expandFrom shortcuts limit (targetNames rewritten).reverse t) := by
  induction limit generalizing rewritten t with
  | zero => exact ⟨rewritten, h, le_rfl, .depth rfl⟩
  | succ limit ih =>
      by_cases hUsed : Command.targetName t ∈ targetNames rewritten
      · rw [expandFrom, if_pos (by simpa using hUsed)]
        exact ⟨rewritten, h, by omega, .name hUsed⟩
      · cases hStep : step? shortcuts t with
        | none =>
            rw [expandFrom, hStep, ite_self]
            exact ⟨rewritten, h, by omega, .stuck (step?_eq_none_iff.mp hStep)⟩
        | some u =>
            -- The chain so far grows by one text, and the steps that are left fall by one.
            have hRewrites := step?_eq_some_iff.mp hStep
            obtain ⟨all, hAll, hLength, hEnds⟩ := ih (chain_concat_iff.mpr ⟨h, hUsed, hRewrites⟩)
            have hSum : (rewritten ++ [t]).length + limit = rewritten.length + (limit + 1) := by
              rw [List.length_append, List.length_singleton]
              omega
            rw [hSum] at hLength hEnds
            rw [expandFrom_of_rewrites hUsed hRewrites]
            exact ⟨all, hAll, hLength, hEnds⟩

/-- The expansion of a text is the end of a chain, and of no other. -/
theorem expandFrom_eq_iff : expandFrom shortcuts depth [] start = last ↔
    ∃ rewritten, Chain shortcuts start rewritten last ∧ rewritten.length ≤ depth ∧
      Ends shortcuts depth rewritten last := by
  constructor
  · rintro rfl
    obtain ⟨all, hChain, hLength, hEnds⟩ :=
      exists_chain_expandFrom depth (chain_nil_iff.mpr (rfl : start = start))
    rw [List.length_nil, Nat.zero_add] at hLength hEnds
    exact ⟨all, hChain, hLength, hEnds⟩
  · rintro ⟨rewritten, hChain, hLength, hEnds⟩
    rw [hChain.expandFrom_eq hLength, expandFrom_of_ends hEnds]

/-- The number of shortcuts cuts no expansion short. -/
theorem expandFrom_min (shortcuts : List Shortcut) (depth : Nat) (start : Text) :
    expandFrom shortcuts (min shortcuts.length depth) [] start =
      expandFrom shortcuts depth [] start := by
  obtain ⟨rewritten, hChain, hLength, hEnds⟩ :=
    expandFrom_eq_iff.mp (rfl : expandFrom shortcuts (min shortcuts.length depth) [] start = _)
  have hDepth : rewritten.length ≤ depth := hLength.trans (min_le_right _ _)
  exact (expandFrom_eq_iff.mpr ⟨rewritten, hChain, hDepth, hEnds.of_min hChain⟩).symm

/-- A trimmed text for which no shortcut gives a command expands to itself. -/
theorem expand_of_isStuck (hTrim : Text.trim t = t) (h : IsStuck shortcuts t) (depth : Nat) :
    expand shortcuts depth t = t := by
  rw [expand, expandFrom_min, hTrim]
  exact expandFrom_eq_iff.mpr ⟨[], chain_nil_iff.mpr rfl, Nat.zero_le _, .stuck h⟩

/-- **Expansions are chains.**  A message expands to the last text of a chain that begins
with the trimmed message, has at most `depth` rewritings and ends for one of the three
reasons, and to the last text of no other such chain.  So it expands to the same text
without the limit by the number of shortcuts.  A chain that is stuck ends in a text that
expands to itself, and if the message opens with an at sign, all texts of a chain do. -/
theorem expand_explained (shortcuts : List Shortcut) (depth : Nat) (message : Text) :
    (∀ last, expand shortcuts depth message = last ↔
      ∃ rewritten, Chain shortcuts (Text.trim message) rewritten last ∧
        rewritten.length ≤ depth ∧ Ends shortcuts depth rewritten last) ∧
    expand shortcuts depth message = expandFrom shortcuts depth [] (Text.trim message) ∧
    ∀ rewritten last, Chain shortcuts (Text.trim message) rewritten last →
      (IsStuck shortcuts last → expand shortcuts depth last = last) ∧
      (message.head? = some '@' → ∀ t ∈ rewritten ++ [last], t.head? = some '@') := by
  have hUncut : expand shortcuts depth message =
      expandFrom shortcuts depth [] (Text.trim message) :=
    expandFrom_min shortcuts depth (Text.trim message)
  refine ⟨fun last => ?_, hUncut, fun rewritten last hChain => ⟨fun hStuck => ?_, fun hSign => ?_⟩⟩
  · rw [hUncut]
    exact expandFrom_eq_iff
  · exact expand_of_isStuck (hChain.trim_last (Text.trim_trim message)) hStuck depth
  · apply hChain.head?_of_mem
    obtain ⟨rest, rfl⟩ := List.head?_eq_some_iff.mp hSign
    rw [Text.trim_cons rfl]
    rfl

/-- Three shortcuts of one name, of which the first does not match and the second gives no
command, and one that hands over to a table. -/
def relay : List Shortcut :=
  [⟨"a".toList, "%x% please".toList, "@z %x%".toList⟩,
    ⟨"a".toList, "%x%".toList, "%x% @z".toList⟩,
    ⟨"a".toList, "%x%".toList, "@b %x%%x% ".toList⟩,
    ⟨"b".toList, "%x%".toList, "@house +N %x%".toList⟩]

theorem relay_chain : Chain relay (Text.trim "@a one ".toList)
    ["@a one".toList, "@b oneone".toList] "@house +N oneone".toList := by
  have hFirst : Rewrites relay "@a one".toList "@b oneone".toList :=
    step?_eq_some_iff.mp (by decide +kernel)
  have hSecond : Rewrites relay "@b oneone".toList "@house +N oneone".toList :=
    step?_eq_some_iff.mp (by decide +kernel)
  have hStart : Chain relay (Text.trim "@a one ".toList) [] "@a one".toList :=
    chain_nil_iff.mpr (by decide +kernel)
  have hNext : Chain relay (Text.trim "@a one ".toList) ([] ++ ["@a one".toList])
      "@b oneone".toList :=
    chain_concat_iff.mpr ⟨hStart, by decide +kernel, hFirst⟩
  exact chain_concat_iff.mpr ⟨hNext, by decide +kernel, hSecond⟩

theorem relay_isStuck : IsStuck relay "@house +N oneone".toList :=
  step?_eq_none_iff.mp (by decide +kernel)

/-- The message is handed on twice, to a table whose name no shortcut has. -/
theorem expand_explained_relay :
    expand relay 16 "@a one ".toList = "@house +N oneone".toList ∧
    expand relay 16 "@house +N oneone".toList = "@house +N oneone".toList ∧
    ∀ t ∈ ["@a one".toList, "@b oneone".toList] ++ ["@house +N oneone".toList],
      t.head? = some '@' := by
  obtain ⟨hEnd, -, hTexts⟩ := expand_explained relay 16 "@a one ".toList
  obtain ⟨hStuck, hSign⟩ := hTexts _ _ relay_chain
  exact ⟨(hEnd _).mpr ⟨_, relay_chain, by decide, .stuck relay_isStuck⟩, hStuck relay_isStuck,
    hSign rfl⟩

end TableTalk.Shortcut
