import TableTalk.Proofs.Statement.Token
import TableTalk.Store.Read

/-!
# Selections in the query language

The part of the query language that selections are written in, as the manual of the
database describes it: how tokens are read, and what is read means.

* Conditions are comparisons joined by `AND` and `OR`, of which `AND` binds closer, and
  parentheses group.  `Condition.read?` reads them from left to right with one `Level` for
  every parenthesis that is open.
* A comparison with a missing value is neither true nor false (`Comparator.truth`).  Beside
  a number a text counts as a number, if it writes one, and `CAST` makes a number of any text
  (`Operand.key`).  Which value of binary64 a text counts as is left open: it is the argument
  `cast` of all that follows, in units of the smallest positive value.
* `Selection.Answers` says which rows answer a selection.  Rows whose condition is true are
  given once each, in the order of their keys, where the missing value is the least and
  numbers come before texts.  Rows with equal keys may come in any order.
* A statement whose condition is too deep, or that asks for too many columns, is not answered
  (`Selection.TooLarge`).

A statement outside this part is not read at all.
-/

namespace TableTalk

/-- Whether a comparison of two keys is true or false; with a missing value it is neither. -/
def Comparator.truth (op : Comparator) : Cell.Key → Cell.Key → Option Bool
  | .missing, _ => none
  | _, .missing => none
  | a, b => some (op.admits (Cell.Key.order a b))

namespace Statement

/-! ### Operands -/

/-- What is compared or ordered by. -/
inductive Operand where
  | column (name : Text)
  | value (v : Text)
  /-- An operand as a number -/
  | real (o : Operand)
deriving DecidableEq, Repr

namespace Operand

def ofToken? : Token → Option Operand
  | .name n => some (.column n)
  | .value v => some (.value v)
  | _ => none

/-- What an operand stands for on a row, before a cast. -/
def cell (s : StoredTable) (row : Nat × StoredRow) : Operand → Cell
  | column n => s.cell row n
  | value v => .text v
  | real o => o.cell s row

/-- A key as a number; the missing value stays missing. -/
def castKey (cast : Text → Int) : Cell.Key → Cell.Key
  | .text t => .number (cast t)
  | k => k

/-- The key of an operand on a row. -/
def key (cast : Text → Int) (s : StoredTable) (row : Nat × StoredRow) : Operand → Cell.Key
  | column n => (s.cell row n).key false
  | value v => .text v
  | real o => castKey cast (o.key cast s row)

/-- The operand is a number by its kind: a row number or a cast. -/
def isNumber (s : StoredTable) (row : Nat × StoredRow) : Operand → Bool
  | column n => (s.cell row n matches .rowNumber _)
  | value _ => false
  | real _ => true

/-- A key beside a number: a text that writes a number counts as the number. -/
def keyBesideNumber (cast : Text → Int) : Cell.Key → Cell.Key
  | .text t => if (Decimal.read (Decimal.trimCell t)).isSome then .number (cast t) else .text t
  | k => k

/-- The key of an operand in a comparison with another. -/
def keyBeside (cast : Text → Int) (s : StoredTable) (row : Nat × StoredRow)
    (o other : Operand) : Cell.Key :=
  if other.isNumber s row && !o.isNumber s row then keyBesideNumber cast (o.key cast s row)
  else o.key cast s row

def depth : Operand → Nat
  | real o => o.depth + 1
  | _ => 1

end Operand

/-! ### Conditions -/

/-- A condition on rows. -/
inductive Condition where
  | compare (left : Operand) (op : Comparator) (right : Operand)
  | both (x y : Condition)
  | either (x y : Condition)
deriving DecidableEq, Repr

/-- Both are true, or one of them is false. -/
def both : Option Bool → Option Bool → Option Bool
  | some false, _ => some false
  | _, some false => some false
  | some true, some true => some true
  | _, _ => none

/-- One of them is true, or both are false. -/
def either : Option Bool → Option Bool → Option Bool
  | some true, _ => some true
  | _, some true => some true
  | some false, some false => some false
  | _, _ => none

/-- Whether a condition is true or false of a row, or neither. -/
def Condition.truth (cast : Text → Int) (s : StoredTable) (row : Nat × StoredRow) :
    Condition → Option Bool
  | compare left op right =>
      op.truth (left.keyBeside cast s row right) (right.keyBeside cast s row left)
  | both x y => Statement.both (x.truth cast s row) (y.truth cast s row)
  | either x y => Statement.either (x.truth cast s row) (y.truth cast s row)

/-- How deep a condition is. -/
def Condition.depth : Condition → Nat
  | compare left _ right => max left.depth right.depth + 1
  | both x y => max x.depth y.depth + 1
  | either x y => max x.depth y.depth + 1

theorem both_eq_true_iff {x y : Option Bool} :
    both x y = some true ↔ x = some true ∧ y = some true := by
  rcases x with _ | _ | _ <;> rcases y with _ | _ | _ <;> decide

theorem either_eq_true_iff {x y : Option Bool} :
    either x y = some true ↔ x = some true ∨ y = some true := by
  rcases x with _ | _ | _ <;> rcases y with _ | _ | _ <;> decide

/-! ### Reading conditions -/

/-- A piece of a condition. -/
inductive Piece where
  | operand (o : Operand)
  | sign (op : Comparator)
  | both
  | either
  | opening
  | closing
deriving DecidableEq, Repr

/-- The piece that one token is. -/
def Piece.ofToken? : Token → Option Piece
  | .sign op => some (.sign op)
  | .keyword .both => some .both
  | .keyword .either => some .either
  | .opening => some .opening
  | .closing => some .closing
  | t => (Operand.ofToken? t).map .operand

/-- Tokens as pieces of a condition; a cast is one piece. -/
def pieces? : List Token → Option (List Piece)
  | [] => some []
  | .keyword .cast :: .opening :: t :: .keyword .type :: .keyword .real :: .closing :: ts => do
      let o ← Operand.ofToken? t
      let ps ← pieces? ts
      return .operand (.real o) :: ps
  | t :: ts => do
      let p ← Piece.ofToken? t
      let ps ← pieces? ts
      return p :: ps

/-- How far the next factor of a condition has been read. -/
inductive Stage where
  | start
  | left (a : Operand)
  | compared (a : Operand) (op : Comparator)
  /-- The factor is complete, and a key word may follow -/
  | full
deriving DecidableEq, Repr

/-- What has been read inside one parenthesis. -/
structure Level where
  /-- What stands before the last `OR` -/
  alternatives : Option Condition := none
  /-- The factors since then, joined by `AND` -/
  factors : Option Condition := none
  stage : Stage := .start
deriving DecidableEq, Repr

namespace Level

/-- Take a further factor. -/
def take (l : Level) (x : Condition) : Level where
  alternatives := l.alternatives
  factors := some (match l.factors with
    | none => x
    | some y => .both y x)
  stage := .full

/-- The condition that has been read, if it could end here. -/
def whole? (l : Level) : Option Condition :=
  match l.stage, l.alternatives, l.factors with
  | .full, none, some x => some x
  | .full, some y, some x => some (.either y x)
  | _, _, _ => none

/-- Take a piece; the innermost parenthesis that is open stands first. -/
def next : List Level → Piece → Option (List Level)
  | l :: ls, .operand b =>
      match l.stage with
      | .start => some ({ l with stage := .left b } :: ls)
      | .compared a op => some (l.take (.compare a op b) :: ls)
      | _ => none
  | l :: ls, .sign op =>
      match l.stage with
      | .left a => some ({ l with stage := .compared a op } :: ls)
      | _ => none
  | l :: ls, .both =>
      match l.stage with
      | .full => some ({ l with stage := .start } :: ls)
      | _ => none
  | l :: ls, .either => l.whole?.map fun x => { alternatives := some x } :: ls
  | l :: ls, .opening =>
      match l.stage with
      | .start => some ({} :: l :: ls)
      | _ => none
  | inner :: outer :: ls, .closing => inner.whole?.map fun x => outer.take x :: ls
  | _, _ => none

end Level

/-- Read a condition. -/
def Condition.read? (ts : List Token) : Option Condition := do
  let ps ← pieces? ts
  match ← ps.foldlM Level.next [{}] with
  | [l] => l.whole?
  | _ => none

/-! ### Selections -/

/-- A selection of columns from the rows of a table. -/
structure Selection where
  columns : List Text
  table : Text
  condition : Condition
  /-- What the rows are ordered by -/
  key : Operand
  direction : SortOrder
deriving DecidableEq, Repr

/-- The tokens on both sides of a key word. -/
def cut (k : Keyword) : List Token → Option (List Token × List Token)
  | [] => none
  | t :: ts => if t = .keyword k then some ([], ts) else (cut k ts).map fun s => (t :: s.1, s.2)

/-- Names that follow others, after a comma each. -/
def furtherNames? : List Token → Option (List Text)
  | [] => some []
  | .comma :: .name n :: ts => (furtherNames? ts).map (n :: ·)
  | _ => none

/-- Names between commas. -/
def names? : List Token → Option (List Text)
  | .name n :: ts => (furtherNames? ts).map (n :: ·)
  | _ => none

/-- An operand that stands alone. -/
def operand? (ts : List Token) : Option Operand :=
  match pieces? ts with
  | some [.operand o] => some o
  | _ => none

/-- An operand and the direction after it, which is ascending if none is given. -/
def ordering? (ts : List Token) : Option (Operand × SortOrder) :=
  match cut .ascending ts, cut .descending ts with
  | some (ts, []), none => (operand? ts).map (·, .ascending)
  | none, some (ts, []) => (operand? ts).map (·, .descending)
  | none, none => (operand? ts).map (·, .ascending)
  | _, _ => none

namespace Selection

/-- Read a selection whose values have been put in. -/
def ofTokens? : List Token → Option Selection
  | .keyword .select :: ts => do
      let (names, ts) ← cut .source ts
      let (table, ts) ← cut .condition ts
      let (terms, ts) ← cut .order ts
      match table, ts with
      | [.name table], .keyword .key :: ts =>
          let columns ← names? names
          let condition ← Condition.read? terms
          let (key, direction) ← ordering? ts
          return ⟨columns, table, condition, key, direction⟩
      | _, _ => none
  | _ => none

/-- Read a statement with the values for its question marks. -/
def read? (statement : Text) (values : List Text) : Option Selection :=
  (bindValues (tokens statement) values).bind ofTokens?

/-- The first row may come before the second. -/
def InOrder (cast : Text → Int) (q : Selection) (s : StoredTable) (a b : Nat × StoredRow) :
    Prop :=
  match q.direction with
  | .ascending => Cell.Key.order (q.key.key cast s a) (q.key.key cast s b) ≠ .gt
  | .descending => Cell.Key.order (q.key.key cast s b) (q.key.key cast s a) ≠ .gt

/-- The rows of cells answer the selection from a table. -/
def Answers (cast : Text → Int) (q : Selection) (s : StoredTable) (found : List (List Cell)) :
    Prop :=
  ∃ chosen : List (Nat × StoredRow),
    chosen.Perm (s.numberedRows.filter fun row => q.condition.truth cast s row == some true) ∧
      chosen.Pairwise (q.InOrder cast s) ∧
      found = chosen.map fun row => q.columns.map (s.cell row)

/-- The selection is deeper or wider than is allowed. -/
def TooLarge (q : Selection) : Prop :=
  maxDepth < q.condition.depth ∨ maxColumns < q.columns.length

end Selection

end Statement

end TableTalk
