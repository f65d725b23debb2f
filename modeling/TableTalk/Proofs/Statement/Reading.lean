import TableTalk.Proofs.Statement.Language
import TableTalk.Proofs.Traversal

/-!
# Selections are read as they are meant

A query is written as a statement with a question mark for every value, and the values go
beside it in a list.  Read back with these values, the statement is the selection that the
query means (`Selection.read?_select`): every value stands where its question mark stood,
number columns are cast on both sides of a comparison, two comparisons of one constraint
are alternatives inside parentheses, and the constraints are joined to the completion mark
one by one.

Each part of a statement is followed through the three steps: which tokens it is read as,
which values those take for their question marks, and which piece of a condition they are.
The tokens of a part are given once, with a function that says what stands for the value
of a comparison: a question mark before the second step, and the value after it.
-/

namespace TableTalk.Statement

variable {t : Table} {query : Query} {columns : List Text}

/-- A quoted name. -/
def quoted (n : Text) : Text :=
  '"' :: n ++ ['"']

theorem quoteName_eq {n : Text} (h : isName n = true) : quoteName n = .ok (quoted n) := by
  unfold quoteName
  rw [if_pos h]
  rfl

/-! ### The selection that is meant -/

/-- A column as an operand. -/
def columnOperand (t : Table) (n : Text) : Operand :=
  if isNumeric t n then .real (.column n) else .column n

/-- A value that is compared with a column, as an operand. -/
def valueOperand (t : Table) (n v : Text) : Operand :=
  if isNumeric t n then .real (.value v) else .value v

def comparisonCondition (t : Table) (n : Text) (x : Comparison) : Condition :=
  .compare (columnOperand t n) x.comparator (valueOperand t n x.value)

def constraintCondition (t : Table) (c : Constraint) : Condition :=
  match c.second with
  | none => comparisonCondition t c.column c.first
  | some second =>
      .either (comparisonCondition t c.column c.first) (comparisonCondition t c.column second)

/-- The condition that a row is finished. -/
def completeCondition : Condition :=
  .compare (.column Bookkeeping.saved) .equals (.value Bookkeeping.complete)

/-- What a query selects. -/
def Selection.ofQuery (t : Table) (query : Query) (columns : List Text) : Selection where
  columns := columns
  table := t.id
  condition := (query.constraints.map (constraintCondition t)).foldl .both completeCondition
  key := match query.orderBy with
    | none => .column Bookkeeping.id
    | some o => columnOperand t o.column
  direction := match query.orderBy with
    | none => .ascending
    | some o => o.order

/-! ### Tokens -/

/-- The tokens of an operand that may be cast. -/
def castTokens (numeric : Bool) (x : Token) : List Token :=
  if numeric then
    [.keyword .cast, .opening, x, .keyword .type, .keyword .real, .closing]
  else [x]

/-- The tokens of a comparison, with what stands for its value. -/
def comparisonTokens (t : Table) (n : Text) (f : Comparison → Token) (x : Comparison) :
    List Token :=
  castTokens (isNumeric t n) (.name n) ++ .sign x.comparator ::
    castTokens (isNumeric t n) (f x)

/-- The tokens of a constraint, with what stands for its values. -/
def constraintTokens (t : Table) (f : Comparison → Token) (c : Constraint) : List Token :=
  match c.second with
  | none => comparisonTokens t c.column f c.first
  | some second =>
      .opening :: comparisonTokens t c.column f c.first ++ .keyword .either ::
        comparisonTokens t c.column f second ++ [.closing]

/-- The tokens of all conditions, with what stands for their values. -/
def conditionTokens (t : Table) (f : Comparison → Token) (query : Query) : List Token :=
  [.name Bookkeeping.saved, .sign .equals, f ⟨.equals, Bookkeeping.complete⟩] ++
    query.constraints.flatMap fun c => .keyword .both :: constraintTokens t f c

def orderingTokens (t : Table) : Option OrderBy → List Token
  | none => [.name Bookkeeping.id]
  | some o => castTokens (isNumeric t o.column) (.name o.column) ++ [match o.order with
      | .ascending => .keyword .ascending
      | .descending => .keyword .descending]

def nameTokens : List Text → List Token
  | [] => []
  | n :: ns => .name n :: ns.flatMap fun n => [.comma, .name n]

/-- The tokens of a selection, with what stands for its values. -/
def selectionTokens (t : Table) (f : Comparison → Token) (query : Query) (columns : List Text) :
    List Token :=
  .keyword .select :: (nameTokens columns ++ .keyword .source :: .name t.id ::
    .keyword .condition :: (conditionTokens t f query ++ .keyword .order :: .keyword .key ::
      orderingTokens t query.orderBy))

/-! ### The text -/

/-- The names that a selection writes. -/
structure Nameable (t : Table) (query : Query) (columns : List Text) : Prop where
  id_isName : isName t.id = true
  columns_isName : ∀ n ∈ columns, isName n = true
  constraints_isName : ∀ c ∈ query.constraints, isName c.column = true
  order_isName : ∀ o, query.orderBy = some o → isName o.column = true

def columnText (t : Table) (n : Text) : Text :=
  if isNumeric t n then "CAST(".toList ++ quoted n ++ " AS REAL)".toList else quoted n

def comparisonText (t : Table) (n : Text) (x : Comparison) : Text :=
  columnText t n ++ ' ' :: x.comparator.sign ++ ' ' :: valueExpression t n

def constraintText (t : Table) (c : Constraint) : Text :=
  match c.second with
  | none => comparisonText t c.column c.first
  | some second =>
      '(' :: comparisonText t c.column c.first ++ " OR ".toList ++
        comparisonText t c.column second ++ [')']

def orderingText (t : Table) : Option OrderBy → Text
  | none => Bookkeeping.id
  | some o => columnText t o.column ++ ' ' :: o.order.keyword

def selectionText (t : Table) (query : Query) (columns : List Text) : Text :=
  "SELECT ".toList ++ Text.join ", ".toList (columns.map quoted) ++ " FROM ".toList ++
    quoted t.id ++ " WHERE ".toList ++
    Text.join " AND ".toList
      ((Bookkeeping.saved ++ " = ?".toList) :: query.constraints.map (constraintText t)) ++
    " ORDER BY ".toList ++ orderingText t query.orderBy

theorem columnExpression_eq {n : Text} (h : isName n = true) :
    columnExpression t n = .ok (columnText t n) := by
  unfold columnExpression columnText
  rw [quoteName_eq h]
  rfl

theorem comparison_eq {n : Text} (h : isName n = true) (x : Comparison) :
    comparison t n x = .ok (comparisonText t n x) := by
  unfold comparison comparisonText
  rw [columnExpression_eq h]
  rfl

theorem condition_eq {c : Constraint} (h : isName c.column = true) :
    condition t c = .ok (constraintText t c) := by
  unfold condition constraintText
  rw [comparison_eq h]
  cases c.second with
  | none => rfl
  | some second =>
      dsimp only
      rw [comparison_eq h]
      rfl

/-- A selection whose names are names is written. -/
theorem select_eq (h : Nameable t query columns) :
    select t query columns = .ok (selectionText t query columns) := by
  have hColumns : columns.mapM quoteName = .ok (columns.map quoted) :=
    Traversal.mapM_eq_ok_map fun n hn => quoteName_eq (h.columns_isName n hn)
  have hConditions : query.constraints.mapM (condition t) =
      .ok (query.constraints.map (constraintText t)) :=
    Traversal.mapM_eq_ok_map fun c hc => condition_eq (h.constraints_isName c hc)
  have hOrder : ordering t query.orderBy = .ok (orderingText t query.orderBy) := by
    cases hBy : query.orderBy with
    | none => rfl
    | some o =>
        unfold ordering orderingText
        dsimp only
        rw [columnExpression_eq (h.order_isName o hBy)]
        rfl
  unfold select
  rw [hColumns, hConditions, quoteName_eq h.id_isName, hOrder]
  rfl

/-! ### From text to tokens -/

section Lexing

variable {n : Text} (hName : isName n = true)
include hName

theorem lexes_column (t : Table) :
    Lexes (columnText t n) (castTokens (isNumeric t n) (.name n)) := by
  have hOpening : Lexes "CAST(".toList [.keyword .cast, .opening] := fun _ => rfl
  have hClosing : Lexes " AS REAL)".toList [.keyword .type, .keyword .real, .closing] :=
    fun _ => rfl
  unfold columnText castTokens
  cases isNumeric t n with
  | true => exact (hOpening.append (lexes_quoted hName)).append hClosing
  | false => exact lexes_quoted hName

theorem lexes_comparison (t : Table) (x : Comparison) :
    Lexes (comparisonText t n x) (comparisonTokens t n (fun _ => .mark) x) := by
  have hValue : Lexes (valueExpression t n) (castTokens (isNumeric t n) .mark) := by
    unfold valueExpression castTokens
    cases isNumeric t n with
    | true => exact fun _ => rfl
    | false => exact lexes_mark
  have hAll := ((lexes_column hName t).append (lexes_sign x.comparator)).append hValue
  unfold comparisonText comparisonTokens
  simpa using hAll

end Lexing

theorem lexes_constraint (t : Table) {c : Constraint} (h : isName c.column = true) :
    Lexes (constraintText t c) (constraintTokens t (fun _ => .mark) c) := by
  have hOpening : Lexes ['('] [.opening] := fun _ => rfl
  have hEither : Lexes " OR ".toList [.keyword .either] := fun _ => rfl
  have hClosing : Lexes [')'] [.closing] := fun _ => rfl
  unfold constraintText constraintTokens
  cases c.second with
  | none => exact lexes_comparison h t c.first
  | some second =>
      have hFirst := hOpening.append (lexes_comparison h t c.first)
      have hSecond := (hFirst.append hEither).append (lexes_comparison h t second)
      simpa using hSecond.append hClosing

/-- The ordering stands at the end of the statement. -/
theorem tokens_ordering (t : Table) (order : Option OrderBy)
    (h : ∀ o, order = some o → isName o.column = true) :
    tokens (orderingText t order) = orderingTokens t order := by
  cases order with
  | none => rfl
  | some o =>
      unfold orderingText orderingTokens
      dsimp only
      rw [lexes_column (h o rfl) t]
      cases o.order <;> rfl

theorem lexes_names (h : ∀ n ∈ columns, isName n = true) :
    Lexes (Text.join ", ".toList (columns.map quoted)) (nameTokens columns) := by
  have hComma : Lexes ", ".toList [.comma] := fun _ => rfl
  cases columns with
  | nil => exact Lexes.nil
  | cons n ns =>
      rw [List.map_cons, Text.join_cons, List.flatMap_map]
      have hRest : Lexes (ns.flatMap fun n => ", ".toList ++ quoted n)
          (ns.flatMap fun n => [.comma, .name n]) :=
        Lexes.flatMap fun m hm =>
          hComma.append (lexes_quoted (h m (List.mem_cons_of_mem _ hm)))
      exact (lexes_quoted (h n List.mem_cons_self)).append hRest

/-- The statement is read as the tokens of the selection, with a mark for every value. -/
theorem tokens_selection (h : Nameable t query columns) :
    tokens (selectionText t query columns) =
      selectionTokens t (fun _ => .mark) query columns := by
  have hSelect : Lexes "SELECT ".toList [.keyword .select] := fun _ => rfl
  have hFrom : Lexes " FROM ".toList [.keyword .source] := fun _ => rfl
  have hWhere : Lexes " WHERE ".toList [.keyword .condition] := fun _ => rfl
  have hAnd : Lexes " AND ".toList [.keyword .both] := fun _ => rfl
  have hOrder : Lexes " ORDER BY ".toList [.keyword .order, .keyword .key] := fun _ => rfl
  have hComplete : Lexes (Bookkeeping.saved ++ " = ?".toList)
      [.name Bookkeeping.saved, .sign .equals, .mark] := fun _ => rfl
  have hConstraints : Lexes (query.constraints.flatMap fun c => " AND ".toList ++ constraintText t c)
      (query.constraints.flatMap fun c =>
        .keyword .both :: constraintTokens t (fun _ => .mark) c) :=
    Lexes.flatMap fun c hc => hAnd.append (lexes_constraint t (h.constraints_isName c hc))
  have hUpToOrder := ((((hSelect.append (lexes_names h.columns_isName)).append hFrom).append
    (lexes_quoted h.id_isName)).append hWhere).append (hComplete.append hConstraints)
  have hAll := hUpToOrder.append hOrder (orderingText t query.orderBy)
  rw [tokens_ordering t query.orderBy h.order_isName] at hAll
  unfold selectionText selectionTokens conditionTokens
  rw [Text.join_cons, List.flatMap_map]
  simpa [quoted] using hAll

/-! ### From marks to values -/

/-- What a comparison is given for its mark. -/
def given (x : Comparison) : Token :=
  .value x.value

theorem binds_cast_mark (numeric : Bool) (x : Comparison) :
    Binds (castTokens numeric .mark) [x.value] (castTokens numeric (given x)) := by
  cases numeric with
  | true => exact fun us ws => by simp [castTokens, bindValues, given, Function.comp_def]
  | false => exact fun us ws => by simp [castTokens, bindValues, given]

theorem mark_not_mem_castTokens (numeric : Bool) (n : Text) :
    .mark ∉ castTokens numeric (.name n) := by
  cases numeric <;> simp [castTokens]

theorem binds_comparison (t : Table) (n : Text) (x : Comparison) :
    Binds (comparisonTokens t n (fun _ => .mark) x) [x.value] (comparisonTokens t n given x) := by
  have hName := Binds.of_not_mem (mark_not_mem_castTokens (isNumeric t n) n)
  have hSign : Binds [.sign x.comparator] [] [.sign x.comparator] := Binds.of_not_mem (by simp)
  have hAll := (hName.append hSign).append (binds_cast_mark (isNumeric t n) x)
  unfold comparisonTokens
  simpa using hAll

theorem binds_constraint (t : Table) (c : Constraint) :
    Binds (constraintTokens t (fun _ => .mark) c) (c.comparisons.map Comparison.value)
      (constraintTokens t given c) := by
  unfold constraintTokens Constraint.comparisons
  cases c.second with
  | none => exact binds_comparison t c.column c.first
  | some second =>
      have hOpening : Binds [.opening] [] [.opening] := Binds.of_not_mem (by simp)
      have hEither : Binds [.keyword .either] [] [.keyword .either] := Binds.of_not_mem (by simp)
      have hClosing : Binds [.closing] [] [.closing] := Binds.of_not_mem (by simp)
      have hFirst := hOpening.append (binds_comparison t c.column c.first)
      have hSecond := (hFirst.append hEither).append (binds_comparison t c.column second)
      simpa using hSecond.append hClosing

theorem mark_not_mem_nameTokens (columns : List Text) : .mark ∉ nameTokens columns := by
  cases columns <;> simp [nameTokens]

theorem mark_not_mem_orderingTokens (t : Table) (order : Option OrderBy) :
    .mark ∉ orderingTokens t order := by
  cases order with
  | none => simp [orderingTokens]
  | some o =>
      obtain ⟨n, direction⟩ := o
      cases direction <;> simp [orderingTokens, mark_not_mem_castTokens]

/-- Every value stands where its question mark stood. -/
theorem bindValues_selection (t : Table) (query : Query) (columns : List Text) :
    bindValues (selectionTokens t (fun _ => .mark) query columns) (selectValues query) =
      some (selectionTokens t given query columns) := by
  have hBefore : Binds (.keyword .select :: nameTokens columns ++
        [.keyword .source, .name t.id, .keyword .condition]) []
      (.keyword .select :: nameTokens columns ++
        [.keyword .source, .name t.id, .keyword .condition]) :=
    Binds.of_not_mem (by simp [mark_not_mem_nameTokens])
  have hComplete : Binds [.name Bookkeeping.saved, .sign .equals, .mark] [Bookkeeping.complete]
      [.name Bookkeeping.saved, .sign .equals, .value Bookkeeping.complete] :=
    fun us ws => by simp [bindValues, Function.comp_def]
  have hBoth : Binds [.keyword .both] [] [.keyword .both] := Binds.of_not_mem (by simp)
  have hConstraints : Binds
      (query.constraints.flatMap fun c => .keyword .both :: constraintTokens t (fun _ => .mark) c)
      (query.constraints.flatMap fun c => c.comparisons.map Comparison.value)
      (query.constraints.flatMap fun c => .keyword .both :: constraintTokens t given c) :=
    Binds.flatMap fun c _ => hBoth.append (binds_constraint t c)
  have hAfter : Binds (.keyword .order :: .keyword .key :: orderingTokens t query.orderBy) []
      (.keyword .order :: .keyword .key :: orderingTokens t query.orderBy) :=
    Binds.of_not_mem (by simp [mark_not_mem_orderingTokens])
  have hAll := ((hBefore.append (hComplete.append hConstraints)).append hAfter).bindValues_eq
  unfold selectionTokens conditionTokens selectValues
  simpa [given] using hAll

/-! ### From tokens to the selection -/

/-- The tokens are these pieces of a condition, whatever follows. -/
def Pieced (ts : List Token) (ps : List Piece) : Prop :=
  ∀ us, pieces? (ts ++ us) = (pieces? us).map (ps ++ ·)

namespace Pieced

variable {ts ts' : List Token} {ps ps' : List Piece}

theorem nil : Pieced [] [] := fun us => by simp

theorem append (h : Pieced ts ps) (h' : Pieced ts' ps') : Pieced (ts ++ ts') (ps ++ ps') := by
  intro us
  rw [List.append_assoc, h, h', Option.map_map]
  exact congrArg (Option.map · _) (funext fun rest => (List.append_assoc _ _ _).symm)

theorem pieces?_eq (h : Pieced ts ps) : pieces? ts = some ps := by
  have hEnd := h []
  simpa [pieces?] using hEnd

theorem flatMap {α : Type} {f : α → List Token} {g : α → List Piece} {xs : List α}
    (h : ∀ x ∈ xs, Pieced (f x) (g x)) : Pieced (xs.flatMap f) (xs.flatMap g) := by
  induction xs with
  | nil => exact nil
  | cons x xs ih =>
      simp only [List.flatMap_cons]
      exact (h x List.mem_cons_self).append (ih fun y hy => h y (List.mem_cons_of_mem _ hy))

theorem token {x : Token} {p : Piece} (h : Piece.ofToken? x = some p) : Pieced [x] [p] := by
  have hCast : x ≠ .keyword .cast := by
    rintro rfl
    cases h
  intro us
  cases hRest : pieces? us <;> simp [pieces?, h, hRest, hCast]

/-- A cast is one piece, and so is an operand without one. -/
theorem operand {x : Token} {o : Operand} (numeric : Bool) (h : Operand.ofToken? x = some o)
    (hPiece : Piece.ofToken? x = some (.operand o)) :
    Pieced (castTokens numeric x) [.operand (if numeric then .real o else o)] := by
  cases numeric with
  | true =>
      intro us
      cases hRest : pieces? us <;> simp [castTokens, pieces?, h, hRest]
  | false => exact token hPiece

end Pieced

def comparisonPieces (t : Table) (n : Text) (x : Comparison) : List Piece :=
  [.operand (columnOperand t n), .sign x.comparator, .operand (valueOperand t n x.value)]

def constraintPieces (t : Table) (c : Constraint) : List Piece :=
  match c.second with
  | none => comparisonPieces t c.column c.first
  | some second =>
      .opening :: comparisonPieces t c.column c.first ++ .either ::
        comparisonPieces t c.column second ++ [.closing]

def conditionPieces (t : Table) (query : Query) : List Piece :=
  [.operand (.column Bookkeeping.saved), .sign .equals, .operand (.value Bookkeeping.complete)] ++
    query.constraints.flatMap fun c => .both :: constraintPieces t c

theorem pieced_column (t : Table) (n : Text) :
    Pieced (castTokens (isNumeric t n) (.name n)) [.operand (columnOperand t n)] :=
  Pieced.operand _ rfl rfl

theorem pieced_comparison (t : Table) (n : Text) (x : Comparison) :
    Pieced (comparisonTokens t n given x) (comparisonPieces t n x) := by
  have hSign : Pieced [.sign x.comparator] [.sign x.comparator] := Pieced.token rfl
  have hValue : Pieced (castTokens (isNumeric t n) (given x))
      [.operand (valueOperand t n x.value)] := Pieced.operand _ rfl rfl
  have hAll := ((pieced_column t n).append hSign).append hValue
  unfold comparisonTokens comparisonPieces
  simpa using hAll

theorem pieced_constraint (t : Table) (c : Constraint) :
    Pieced (constraintTokens t given c) (constraintPieces t c) := by
  unfold constraintTokens constraintPieces
  cases c.second with
  | none => exact pieced_comparison t c.column c.first
  | some second =>
      have hOpening : Pieced [.opening] [.opening] := Pieced.token rfl
      have hEither : Pieced [.keyword .either] [.either] := Pieced.token rfl
      have hClosing : Pieced [.closing] [.closing] := Pieced.token rfl
      have hFirst := hOpening.append (pieced_comparison t c.column c.first)
      have hSecond := (hFirst.append hEither).append (pieced_comparison t c.column second)
      simpa using hSecond.append hClosing

theorem pieced_condition (t : Table) (query : Query) :
    Pieced (conditionTokens t given query) (conditionPieces t query) := by
  have hSaved : Pieced [.name Bookkeeping.saved] [.operand (.column Bookkeeping.saved)] :=
    Pieced.token rfl
  have hSign : Pieced [.sign .equals] [.sign .equals] := Pieced.token rfl
  have hValue : Pieced [.value Bookkeeping.complete] [.operand (.value Bookkeeping.complete)] :=
    Pieced.token rfl
  have hBoth : Pieced [.keyword .both] [.both] := Pieced.token rfl
  have hConstraints : Pieced
      (query.constraints.flatMap fun c => .keyword .both :: constraintTokens t given c)
      (query.constraints.flatMap fun c => .both :: constraintPieces t c) :=
    Pieced.flatMap fun c _ => hBoth.append (pieced_constraint t c)
  exact ((hSaved.append hSign).append hValue).append hConstraints

/-- A constraint is one factor: its parentheses are closed where they are opened. -/
theorem foldlM_constraint (t : Table) (c : Constraint) (l : Level) (ls : List Level)
    (h : l.stage = .start) :
    (constraintPieces t c).foldlM Level.next (l :: ls) =
      some (l.take (constraintCondition t c) :: ls) := by
  obtain ⟨alternatives, factors, stage⟩ := l
  obtain rfl : stage = .start := h
  unfold constraintPieces constraintCondition
  cases c.second with
  | none => rfl
  | some second => rfl

/-- Constraints after the word `AND` are joined to the factors one by one. -/
theorem foldlM_constraints (t : Table) (cs : List Constraint) (x : Condition) :
    (cs.flatMap fun c => .both :: constraintPieces t c).foldlM Level.next
        [{ factors := some x, stage := .full }] =
      some [{ factors := some ((cs.map (constraintCondition t)).foldl .both x),
              stage := .full }] := by
  -- `x` is everything read so far, as one factor.
  induction cs generalizing x with
  | nil => rfl
  | cons c cs ih =>
      have hFirst := foldlM_constraint t c { factors := some x } [] rfl
      have hBoth : Level.next [{ factors := some x, stage := .full }] .both =
          some [{ factors := some x }] := rfl
      rw [List.flatMap_cons, List.cons_append, List.foldlM_cons, hBoth]
      simp only [List.foldlM_append, Option.bind_eq_bind, Option.bind_some, hFirst]
      exact ih (.both x (constraintCondition t c))

theorem read?_condition (t : Table) (query : Query) :
    Condition.read? (conditionTokens t given query) =
      some ((query.constraints.map (constraintCondition t)).foldl .both completeCondition) := by
  have hPieces := (pieced_condition t query).pieces?_eq
  have hFold : (conditionPieces t query).foldlM Level.next [{}] =
      some [{ factors := some ((query.constraints.map (constraintCondition t)).foldl .both
        completeCondition), stage := .full }] := by
    unfold conditionPieces
    rw [List.foldlM_append]
    exact foldlM_constraints t query.constraints completeCondition
  unfold Condition.read?
  rw [hPieces]
  simp only [Option.bind_eq_bind, Option.bind_some, hFold]
  rfl

/-! ### The parts of a selection -/

theorem cut_append {k : Keyword} {ts : List Token} (h : .keyword k ∉ ts) (us : List Token) :
    cut k (ts ++ .keyword k :: us) = some (ts, us) := by
  induction ts with
  | nil => simp [cut]
  | cons t ts ih =>
      have hFirst : t ≠ .keyword k := fun hSame => h (hSame ▸ List.mem_cons_self)
      rw [List.cons_append, cut, if_neg hFirst, ih fun hMem => h (List.mem_cons_of_mem _ hMem)]
      rfl

theorem cut_eq_none {k : Keyword} {ts : List Token} (h : .keyword k ∉ ts) : cut k ts = none := by
  induction ts with
  | nil => rfl
  | cons t ts ih =>
      have hFirst : t ≠ .keyword k := fun hSame => h (hSame ▸ List.mem_cons_self)
      rw [cut, if_neg hFirst, ih fun hMem => h (List.mem_cons_of_mem _ hMem)]
      rfl

/-- The key words of a cast are those inside its parentheses and before them. -/
theorem keyword_not_mem_castTokens {k : Keyword} (hCast : k ≠ .cast) (hType : k ≠ .type)
    (hReal : k ≠ .real) {x : Token} (hx : x ≠ .keyword k) (numeric : Bool) :
    .keyword k ∉ castTokens numeric x := by
  cases numeric <;> simp [castTokens, hCast, hType, hReal, hx.symm]

theorem order_not_mem_conditionTokens (t : Table) (query : Query) :
    .keyword .order ∉ conditionTokens t given query := by
  have hComparison (n : Text) (x : Comparison) : .keyword .order ∉ comparisonTokens t n given x := by
    have hName := keyword_not_mem_castTokens (k := .order) nofun nofun nofun
      (x := .name n) nofun (isNumeric t n)
    have hValue := keyword_not_mem_castTokens (k := .order) nofun nofun nofun
      (x := given x) nofun (isNumeric t n)
    simp [comparisonTokens, hName, hValue]
  have hConstraint (c : Constraint) : .keyword .order ∉ constraintTokens t given c := by
    unfold constraintTokens
    cases c.second with
    | none => exact hComparison c.column c.first
    | some second => simp [hComparison]
  simp [conditionTokens, hConstraint, given]

theorem names?_nameTokens (h : columns ≠ []) : names? (nameTokens columns) = some columns := by
  have hFurther (ns : List Text) :
      furtherNames? (ns.flatMap fun n => [.comma, .name n]) = some ns := by
    induction ns with
    | nil => rfl
    | cons n ns ih => simpa [furtherNames?] using ih
  cases columns with
  | nil => exact absurd rfl h
  | cons n ns => simp [nameTokens, names?, hFurther]

theorem ordering?_orderingTokens (t : Table) (query : Query) (columns : List Text) :
    ordering? (orderingTokens t query.orderBy) =
      some ((Selection.ofQuery t query columns).key,
        (Selection.ofQuery t query columns).direction) := by
  unfold Selection.ofQuery
  cases query.orderBy with
  | none => rfl
  | some o =>
      obtain ⟨n, direction⟩ := o
      have hOperand : operand? (castTokens (isNumeric t n) (.name n)) =
          some (columnOperand t n) := by
        unfold operand?
        rw [(pieced_column t n).pieces?_eq]
      have hAscending := keyword_not_mem_castTokens (k := .ascending) nofun nofun nofun
        (x := .name n) nofun (isNumeric t n)
      have hDescending := keyword_not_mem_castTokens (k := .descending) nofun nofun nofun
        (x := .name n) nofun (isNumeric t n)
      unfold ordering? orderingTokens
      cases direction with
      | ascending =>
          rw [cut_append hAscending, cut_eq_none (by simp [hDescending])]
          simp [hOperand]
      | descending =>
          rw [cut_append hDescending, cut_eq_none (by simp [hAscending])]
          simp [hOperand]

/-- **Selections are read as they are meant.**  The statement that is written for a query of
names, with the values of the query, is read as the selection of these columns under the
constraints of the query, in its ordering. -/
theorem read?_select (h : Nameable t query columns) (hSome : columns ≠ []) :
    ∃ statement, select t query columns = .ok statement ∧
      Selection.read? statement (selectValues query) = some (.ofQuery t query columns) := by
  refine ⟨selectionText t query columns, select_eq h, ?_⟩
  have hSource : .keyword .source ∉ nameTokens columns := by
    cases columns <;> simp [nameTokens]
  unfold Selection.read?
  rw [tokens_selection h, bindValues_selection, Option.bind_some]
  -- No part has the key word that ends it inside, so each cut falls where the part ends.
  have hCutSource := cut_append hSource (.name t.id :: .keyword .condition ::
    (conditionTokens t given query ++ .keyword .order :: .keyword .key ::
      orderingTokens t query.orderBy))
  have hTable : .keyword .condition ∉ [Token.name t.id] := by simp
  have hCutCondition := cut_append hTable
    (conditionTokens t given query ++ .keyword .order :: .keyword .key ::
      orderingTokens t query.orderBy)
  have hCutOrder := cut_append (order_not_mem_conditionTokens t query)
    (.keyword .key :: orderingTokens t query.orderBy)
  rw [List.singleton_append] at hCutCondition
  simp only [selectionTokens, Selection.ofTokens?, Option.bind_eq_bind, hCutSource,
    hCutCondition, hCutOrder, Option.bind_some, names?_nameTokens hSome, read?_condition,
    ordering?_orderingTokens t query columns]
  rfl

end TableTalk.Statement
