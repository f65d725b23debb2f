import Mathlib.Algebra.GroupWithZero.Nat
import Mathlib.Algebra.Order.BigOperators.Group.List
import TableTalk.Proofs.Statement.Reading

/-!
# Values beside the text of a statement

A statement and the values for its question marks are written side by side: every
comparison writes its question mark into the text and its value behind the values so far.
`Statement.prepare` is this course, and it ends with the text and the values that are given
apart elsewhere (`prepare_eq`).

The text has one question mark for each value (`count_mark_selectionText`), and it is the
same whatever the values are (`select_shape`).  `Statement.values_apart_from_text` puts
these together with the condition under which a statement is written at all.
-/

namespace TableTalk

/-- A word over the letters `A` to `Z` and `a` to `z`, the digits and the underscore. -/
def Text.IsWord (t : Text) : Prop :=
  t ≠ [] ∧ ∀ c ∈ t, ('A' ≤ c ∧ c ≤ 'Z') ∨ ('a' ≤ c ∧ c ≤ 'z') ∨ ('0' ≤ c ∧ c ≤ '9') ∨ c = '_'

/-- A comparison without its value. -/
def Comparison.shape (x : Comparison) : Comparison :=
  { x with value := [] }

/-- A constraint without the values it compares with. -/
def Constraint.shape (c : Constraint) : Constraint where
  column := c.column
  first := c.first.shape
  second := c.second.map Comparison.shape

/-- A query without the values it compares with.  Queries of one shape are equal except for
these values. -/
def Query.shape (q : Query) : Query :=
  { q with constraints := q.constraints.map Constraint.shape }

namespace Statement

variable {t : Table} {query : Query} {columns : List Text}

/-! ### Text and values side by side -/

/-- A text that is written while values are collected. -/
abbrev Writing := StateT (List Text) (Except DefinitionIssue)

def writeComparison (t : Table) (column : Text) (x : Comparison) : Writing Text := do
  let left ← columnExpression t column
  modify (· ++ [x.value])
  return left ++ ' ' :: x.comparator.sign ++ ' ' :: valueExpression t column

/-- The alternatives of one constraint; several stand in parentheses. -/
def alternatives : List Text → Text
  | [part] => part
  | parts => '(' :: Text.join " OR ".toList parts ++ [')']

def writeCondition (t : Table) (c : Constraint) : Writing Text := do
  return alternatives (← c.comparisons.mapM (writeComparison t c.column))

/-- The statement of a query with the values for its question marks. -/
def prepare (t : Table) (query : Query) (columns : List Text) :
    Except DefinitionIssue (Text × List Text) := do
  let projection ← columns.mapM quoteName
  let (conditions, values) ←
    (query.constraints.mapM (writeCondition t)).run [Bookkeeping.complete]
  let name ← quoteName t.id
  let order ← ordering t query.orderBy
  return ("SELECT ".toList ++ Text.join ", ".toList projection ++ " FROM ".toList ++ name ++
    " WHERE ".toList ++
    Text.join " AND ".toList ((Bookkeeping.saved ++ " = ?".toList) :: conditions) ++
    " ORDER BY ".toList ++ order, values)

/-- The text is written as it is without values, and these values go behind the others. -/
def Collects {α : Type} (w : Writing α) (text : Except DefinitionIssue α)
    (values : List Text) : Prop :=
  ∀ vs, w.run vs = text.map fun a => (a, vs ++ values)

namespace Collects

variable {α β : Type} {w : Writing α} {text : Except DefinitionIssue α} {vs ws : List Text}

theorem pure (a : α) : Collects (Pure.pure a) (.ok a) [] := fun us => by
  rw [StateT.run_pure, List.append_nil]
  rfl

/-- What is written later has its values behind. -/
theorem bind {k : α → Writing β} {r : α → Except DefinitionIssue β} (h : Collects w text vs)
    (hNext : ∀ a, Collects (k a) (r a) ws) : Collects (w >>= k) (text >>= r) (vs ++ ws) := by
  intro us
  rw [StateT.run_bind, h us]
  cases text with
  | error e => rfl
  | ok a =>
      change (k a).run (us ++ vs) = (r a).map _
      rw [hNext a, List.append_assoc]

theorem map (f : α → β) (h : Collects w text vs) : Collects (f <$> w) (text.map f) vs := by
  intro us
  rw [StateT.run_map, h us]
  cases text <;> rfl

/-- Of texts written one after another the values are collected in this order. -/
theorem mapM {f : α → Writing β} {g : α → Except DefinitionIssue β} {values : α → List Text}
    {xs : List α} (h : ∀ x ∈ xs, Collects (f x) (g x) (values x)) :
    Collects (xs.mapM f) (xs.mapM g) (xs.flatMap values) := by
  induction xs with
  | nil => exact pure []
  | cons x xs ih =>
      have hRest := ih fun y hy => h y (List.mem_cons_of_mem _ hy)
      rw [List.mapM_cons, List.mapM_cons, List.flatMap_cons]
      refine (h x List.mem_cons_self).bind fun y => ?_
      rw [← List.append_nil (xs.flatMap values)]
      exact hRest.bind fun ys => pure (y :: ys)

end Collects

theorem collects_comparison (t : Table) (n : Text) (x : Comparison) :
    Collects (writeComparison t n x) (comparison t n x) [x.value] := by
  intro vs
  unfold writeComparison comparison
  cases columnExpression t n with
  | error e => rfl
  | ok left => rfl

theorem collects_condition (t : Table) (c : Constraint) :
    Collects (writeCondition t c) (condition t c) (c.comparisons.map Comparison.value) := by
  have hParts := (Collects.mapM fun x (_ : x ∈ c.comparisons) =>
    collects_comparison t c.column x).map alternatives
  have hText : (c.comparisons.mapM (comparison t c.column)).map alternatives =
      condition t c := by
    unfold condition Constraint.comparisons
    rw [List.mapM_cons]
    cases comparison t c.column c.first with
    | error e => rfl
    | ok first =>
        cases c.second with
        | none => rfl
        | some second =>
            dsimp only [Option.toList_some]
            rw [List.mapM_cons]
            cases comparison t c.column second with
            | error e => rfl
            | ok second => simp [bind, Except.bind, pure, Except.pure, Except.map, alternatives,
                Text.join]
  rw [hText, ← List.map_eq_flatMap] at hParts
  exact hParts

/-- **The course of a statement** ends with its text and with its values in their order. -/
theorem prepare_eq (t : Table) (query : Query) (columns : List Text) :
    prepare t query columns = (select t query columns).map fun s => (s, selectValues query) := by
  have hConditions : Collects (query.constraints.mapM (writeCondition t))
      (query.constraints.mapM (condition t))
      (query.constraints.flatMap fun c => c.comparisons.map Comparison.value) :=
    Collects.mapM fun c _ => collects_condition t c
  unfold prepare select
  rw [hConditions]
  cases columns.mapM quoteName with
  | error e => rfl
  | ok projection =>
      cases query.constraints.mapM (condition t) with
      | error e => rfl
      | ok conditions =>
          cases quoteName t.id with
          | error e => rfl
          | ok name =>
              cases ordering t query.orderBy with
              | error e => rfl
              | ok order => rfl

/-! ### Which statements are written -/

theorem isName_iff {n : Text} : isName n = true ↔ n.IsWord := by
  have hChar (c : Char) : isNameChar c = true ↔
      ('A' ≤ c ∧ c ≤ 'Z') ∨ ('a' ≤ c ∧ c ≤ 'z') ∨ ('0' ≤ c ∧ c ≤ '9') ∨ c = '_' := by
    have hUpper : c.isUpper = true ↔ 'A' ≤ c ∧ c ≤ 'Z' := decide_eq_true_iff
    have hLower : c.isLower = true ↔ 'a' ≤ c ∧ c ≤ 'z' :=
      Bool.and_eq_true_iff.trans (and_congr decide_eq_true_iff decide_eq_true_iff)
    have hDigit : c.isDigit = true ↔ '0' ≤ c ∧ c ≤ '9' :=
      Bool.and_eq_true_iff.trans (and_congr decide_eq_true_iff decide_eq_true_iff)
    have hKinds : isNameChar c = (c.isUpper || c.isLower || c.isDigit || c == '_') := rfl
    rw [hKinds]
    simp only [Bool.or_eq_true, beq_iff_eq, hUpper, hLower, hDigit, or_assoc]
  unfold isName Text.IsWord
  rw [Bool.and_eq_true, List.all_eq_true]
  simp only [hChar]
  simp

instance (t : Text) : Decidable t.IsWord :=
  decidable_of_iff (isName t = true) isName_iff

theorem isName_of_quoteName {n quoted : Text} (h : quoteName n = .ok quoted) :
    isName n = true := by
  unfold quoteName at h
  split at h
  · assumption
  · cases h

theorem isName_of_columnExpression {n written : Text}
    (h : columnExpression t n = .ok written) : isName n = true := by
  unfold columnExpression at h
  obtain ⟨quoted, hQuoted, -⟩ := Traversal.map_eq_ok_iff.mp h
  exact isName_of_quoteName hQuoted

theorem isName_of_condition {c : Constraint} {written : Text}
    (h : condition t c = .ok written) : isName c.column = true := by
  unfold condition at h
  cases hFirst : comparison t c.column c.first with
  | error e =>
      rw [hFirst] at h
      cases h
  | ok first =>
      obtain ⟨left, hLeft, -⟩ := Traversal.map_eq_ok_iff.mp hFirst
      exact isName_of_columnExpression hLeft

theorem isName_of_ordering {o : OrderBy} {written : Text}
    (h : ordering t (some o) = .ok written) : isName o.column = true := by
  unfold ordering at h
  obtain ⟨left, hLeft, -⟩ := Traversal.map_eq_ok_iff.mp h
  exact isName_of_columnExpression hLeft

/-- A statement is written only of names. -/
theorem nameable_of_select {statement : Text} (h : select t query columns = .ok statement) :
    Nameable t query columns := by
  unfold select at h
  obtain ⟨projection, hProjection, h⟩ := Traversal.bind_eq_ok_iff.mp h
  obtain ⟨conditions, hConditions, h⟩ := Traversal.bind_eq_ok_iff.mp h
  obtain ⟨name, hName, h⟩ := Traversal.bind_eq_ok_iff.mp h
  obtain ⟨order, hOrder, -⟩ := Traversal.bind_eq_ok_iff.mp h
  refine ⟨isName_of_quoteName hName, fun n hn => ?_, fun c hc => ?_, fun o ho => ?_⟩
  · obtain ⟨quoted, hQuoted⟩ := Traversal.exists_of_mapM_ok hProjection hn
    exact isName_of_quoteName hQuoted
  · obtain ⟨written, hWritten⟩ := Traversal.exists_of_mapM_ok hConditions hc
    exact isName_of_condition hWritten
  · rw [ho] at hOrder
    exact isName_of_ordering hOrder

/-! ### Question marks -/

section Marks

variable {n : Text}

theorem count_mark_of_isName (h : isName n = true) : n.count '?' = 0 := by
  have hMark : isNameChar '?' = false := by decide
  refine List.count_eq_zero.mpr fun hMem => ?_
  unfold isName at h
  rw [Bool.and_eq_true, List.all_eq_true] at h
  exact Bool.false_ne_true (hMark.symm.trans (h.2 _ hMem))

theorem count_mark_quoted (h : isName n = true) : (quoted n).count '?' = 0 := by
  unfold quoted
  simp [count_mark_of_isName h]

theorem count_mark_columnText (h : isName n = true) : (columnText t n).count '?' = 0 := by
  unfold columnText
  split
  · rw [List.count_append, List.count_append, count_mark_quoted h]
    rfl
  · exact count_mark_quoted h

/-- A comparison has one question mark. -/
theorem count_mark_comparisonText (h : isName n = true) (x : Comparison) :
    (comparisonText t n x).count '?' = 1 := by
  have hSign : x.comparator.sign.count '?' = 0 := by cases x.comparator <;> rfl
  have hValue : (valueExpression t n).count '?' = 1 := by
    unfold valueExpression
    split <;> rfl
  unfold comparisonText
  simp [count_mark_columnText h, hSign, hValue]

end Marks

/-- A constraint has a question mark for each of its comparisons. -/
theorem count_mark_constraintText {c : Constraint} (h : isName c.column = true) :
    (constraintText t c).count '?' = c.comparisons.length := by
  have hEach := count_mark_comparisonText (t := t) h
  unfold constraintText Constraint.comparisons
  cases c.second with
  | none => exact hEach c.first
  | some second => simp [hEach]

theorem count_mark_orderingText (order : Option OrderBy)
    (h : ∀ o, order = some o → isName o.column = true) :
    (orderingText t order).count '?' = 0 := by
  cases order with
  | none => rfl
  | some o =>
      have hKeyword : o.order.keyword.count '?' = 0 := by cases o.order <;> rfl
      unfold orderingText
      simp [count_mark_columnText (h o rfl), hKeyword]

/-- In joined texts nothing is lost, and separators without a mark add none. -/
theorem count_mark_join {separator : Text} (hSeparator : separator.count '?' = 0)
    (pieces : List Text) :
    (Text.join separator pieces).count '?' = (pieces.map (·.count '?')).sum := by
  cases pieces with
  | nil => rfl
  | cons x xs =>
      rw [Text.join_cons, List.count_append, List.count_flatMap, List.map_cons, List.sum_cons]
      simp [Function.comp_def, hSeparator]

/-- **A statement has one question mark for each value.** -/
theorem count_mark_selectionText (h : Nameable t query columns) :
    (selectionText t query columns).count '?' = (selectValues query).length := by
  have hNames : (Text.join ", ".toList (columns.map quoted)).count '?' = 0 := by
    rw [count_mark_join rfl, List.map_map]
    refine List.sum_eq_zero_iff_forall_eq_nat.mpr fun m hm => ?_
    obtain ⟨n, hn, rfl⟩ := List.mem_map.mp hm
    exact count_mark_quoted (h.columns_isName n hn)
  have hConditions : (query.constraints.map (constraintText t)).map (·.count '?') =
      query.constraints.map fun c => c.comparisons.length := by
    rw [List.map_map]
    exact List.map_congr_left fun c hc => count_mark_constraintText (h.constraints_isName c hc)
  have hJoined (pieces : List Text) : (Text.join " AND ".toList pieces).count '?' =
      (pieces.map (·.count '?')).sum := count_mark_join rfl pieces
  have hId := count_mark_quoted h.id_isName
  have hOrder := count_mark_orderingText (t := t) query.orderBy h.order_isName
  have hWords : "SELECT ".toList.count '?' = 0 ∧ " FROM ".toList.count '?' = 0 ∧
      " WHERE ".toList.count '?' = 0 ∧ " ORDER BY ".toList.count '?' = 0 ∧
      (Bookkeeping.saved ++ " = ?".toList).count '?' = 1 := by decide
  unfold selectionText selectValues
  rw [List.length_cons, List.length_flatMap]
  simp only [List.count_append, hJoined, List.map_cons, List.sum_cons, hConditions, hNames, hId,
    hOrder, hWords, List.length_map]
  omega

/-! ### One text for all values -/

theorem condition_shape (t : Table) (c : Constraint) : condition t c.shape = condition t c := by
  obtain ⟨column, first, second⟩ := c
  cases second <;> rfl

/-- The text of a statement does not depend on the values. -/
theorem select_shape (t : Table) (query : Query) (columns : List Text) :
    select t query.shape columns = select t query columns := by
  have hConditions : (query.constraints.map Constraint.shape).mapM (condition t) =
      query.constraints.mapM (condition t) := by
    rw [List.mapM_map]
    exact congrArg (query.constraints.mapM ·) (funext fun c => condition_shape t c)
  unfold select Query.shape
  rw [hConditions]

/-- **Values stand apart from the text.**  A statement is written exactly if the id of the
table and the names of all columns in the query are words of letters, digits and
underscores.  Then it has as many question marks as values, and the values are the
completion mark and those of the comparisons, constraint by constraint and the first before
the second.  And whatever these values are, the text is the same. -/
theorem values_apart_from_text (t : Table) (query : Query) (columns : List Text) :
    ((∃ written, prepare t query columns = .ok written) ↔
      t.id.IsWord ∧ (∀ n ∈ columns, n.IsWord) ∧ (∀ c ∈ query.constraints, c.column.IsWord) ∧
        ∀ o, query.orderBy = some o → o.column.IsWord) ∧
    (∀ statement values, prepare t query columns = .ok (statement, values) →
      select t query columns = .ok statement ∧ selectValues query = values ∧
      statement.count '?' = values.length ∧
      values = "COMPLETE".toList :: query.constraints.flatMap fun c =>
        c.first.value :: (c.second.map Comparison.value).toList) ∧
    ∀ query', query'.shape = query.shape →
      (prepare t query' columns).map Prod.fst = (prepare t query columns).map Prod.fst := by
  have hPrepare := prepare_eq t query columns
  refine ⟨⟨?_, ?_⟩, ?_, ?_⟩
  · rintro ⟨written, hWritten⟩
    rw [hPrepare] at hWritten
    obtain ⟨statement, hStatement, -⟩ := Traversal.map_eq_ok_iff.mp hWritten
    have hNames := nameable_of_select hStatement
    exact ⟨isName_iff.mp hNames.id_isName, fun n hn => isName_iff.mp (hNames.columns_isName n hn),
      fun c hc => isName_iff.mp (hNames.constraints_isName c hc),
      fun o ho => isName_iff.mp (hNames.order_isName o ho)⟩
  · rintro ⟨hId, hColumns, hConstraints, hOrder⟩
    have hNames : Nameable t query columns :=
      ⟨isName_iff.mpr hId, fun n hn => isName_iff.mpr (hColumns n hn),
        fun c hc => isName_iff.mpr (hConstraints c hc), fun o ho => isName_iff.mpr (hOrder o ho)⟩
    rw [hPrepare, select_eq hNames]
    exact ⟨(selectionText t query columns, selectValues query), rfl⟩
  · intro statement values hWritten
    rw [hPrepare] at hWritten
    obtain ⟨text, hText, hPair⟩ := Traversal.map_eq_ok_iff.mp hWritten
    obtain ⟨rfl, rfl⟩ := Prod.mk.inj hPair
    have hNames := nameable_of_select hText
    have hWrittenText := Except.ok.inj ((select_eq hNames).symm.trans hText)
    have hValues (c : Constraint) : c.comparisons.map Comparison.value =
        c.first.value :: (c.second.map Comparison.value).toList := by
      unfold Constraint.comparisons
      cases c.second <;> rfl
    refine ⟨hText, rfl, ?_, ?_⟩
    · rw [← hWrittenText]
      exact count_mark_selectionText hNames
    · unfold selectValues
      simp only [hValues]
      rfl
  · intro query' hShape
    have hText : select t query' columns = select t query columns := by
      rw [← select_shape t query', hShape, select_shape]
    rw [hPrepare, prepare_eq, hText]
    cases select t query columns <;> rfl

/-- A table of boats and their lengths. -/
def pier : Table :=
  ⟨"pier".toList, "pier".toList,
    [{ storageName := ['b'], displayName := ['B'], type := .text },
      { storageName := ['l'], displayName := ['L'], type := .number }], none⟩

/-- Boats of another name, shorter or longer than given, the longest first. -/
def pierQuery (name short long : Text) : Query where
  constraints := [.single ['b'] .notEquals name,
    .either ['l'] ⟨.lessThan, short⟩ ⟨.greaterThan, long⟩]
  orderBy := some ⟨['l'], .descending⟩

/-- A name that is written like the rest of a statement stays a value. -/
theorem values_apart_from_text_pier :
    ∃ statement, prepare pier (pierQuery "\" = ? OR 1 --".toList ['4'] "9.5".toList) [['b']] =
        .ok (statement, ["COMPLETE".toList, "\" = ? OR 1 --".toList, ['4'], "9.5".toList]) ∧
      statement.count '?' = 4 ∧
      (prepare pier (pierQuery [] [] []) [['b']]).map Prod.fst = .ok statement := by
  obtain ⟨hWritten, hParts, hShape⟩ :=
    values_apart_from_text pier (pierQuery "\" = ? OR 1 --".toList ['4'] "9.5".toList) [['b']]
  obtain ⟨⟨statement, values⟩, hPrepare⟩ := hWritten.mpr
    ⟨by decide, by decide, by decide, fun o ho => by cases ho; decide⟩
  obtain ⟨-, -, hCount, hValues⟩ := hParts statement values hPrepare
  subst hValues
  refine ⟨statement, hPrepare, hCount, ?_⟩
  rw [hShape (pierQuery [] [] []) rfl, hPrepare]
  rfl

end Statement

end TableTalk
