import Mathlib.Data.List.Basic
import TableTalk.Store.Statement

/-!
# Tokens of a statement

The database reads a statement as tokens: key words and names, quoted names, signs of
comparison, punctuation and question marks.  `Statement.tokens` takes one character after
another, so that every run of name characters or of sign characters is one token.  What it
does not know becomes a token that no reader accepts.

A statement is written piece by piece, and `Statement.Lexes` says which tokens a piece is
read as wherever it stands.  The pieces of a sequence follow one another (`Lexes.append`),
as often as there are elements of a list (`Lexes.flatMap`).

Question marks are numbered from left to right, and each stands for the value of its
number.  `Statement.bindValues` puts the values in, and fails if there are too few or too many.
-/

namespace TableTalk.Statement

/-- The key words of selections. -/
inductive Keyword where
  | select
  /-- `FROM` -/
  | source
  /-- `WHERE` -/
  | condition
  /-- `AND` -/
  | both
  /-- `OR` -/
  | either
  | cast
  /-- `AS` -/
  | type
  | real
  | order
  /-- `BY` -/
  | key
  | ascending
  | descending
deriving DecidableEq, Repr

namespace Keyword

def text : Keyword → Text
  | select => "SELECT".toList
  | source => "FROM".toList
  | condition => "WHERE".toList
  | both => "AND".toList
  | either => "OR".toList
  | cast => "CAST".toList
  | type => "AS".toList
  | real => "REAL".toList
  | order => "ORDER".toList
  | key => "BY".toList
  | ascending => "ASC".toList
  | descending => "DESC".toList

def all : List Keyword :=
  [select, source, condition, both, either, cast, type, real, order, key, ascending, descending]

/-- The key word that a word is, in letters of any case. -/
def ofText? (t : Text) : Option Keyword :=
  all.find? fun k => Text.sameLetters k.text t

end Keyword

/-- A token of a statement. -/
inductive Token where
  | keyword (k : Keyword)
  /-- A name, quoted or not -/
  | name (t : Text)
  | sign (op : Comparator)
  | comma
  | opening
  | closing
  /-- A question mark -/
  | mark
  /-- The value that stands for a question mark -/
  | value (v : Text)
  /-- What no selection has -/
  | unknown
deriving DecidableEq, Repr

namespace Token

/-- The token of a run of name characters. -/
def ofWord (t : Text) : Token :=
  match Keyword.ofText? t with
  | some k => .keyword k
  | none => if (t.head?.map Char.isDigit).getD true then .unknown else .name t

/-- The token of a run of sign characters. -/
def ofSign (t : Text) : Token :=
  match Comparator.ofSign? t with
  | some op => .sign op
  | none => .unknown

/-- The token of a character that is one by itself. -/
def ofChar : Char → Token
  | ',' => .comma
  | '(' => .opening
  | ')' => .closing
  | '?' => .mark
  | _ => .unknown

end Token

/-- What has been read of a token that may go on. -/
inductive Pending where
  | nothing
  | word (t : Text)
  | sign (t : Text)
  /-- A quoted name up to here, without its quotation mark -/
  | name (t : Text)
deriving DecidableEq, Repr

namespace Pending

/-- The tokens at the end of a statement.  A quoted name must have been closed. -/
def tokens : Pending → List Token
  | nothing => []
  | word t => [.ofWord t]
  | sign t => [.ofSign t]
  | name _ => [.unknown]

def isSignChar (c : Char) : Bool :=
  c == '=' || c == '<' || c == '>' || c == '!'

/-- The tokens completed by a character between tokens, and what is read from there. -/
def start (c : Char) : List Token × Pending :=
  if isNameChar c then ([], word [c])
  else if isSignChar c then ([], sign [c])
  else if c = '"' then ([], name [])
  else if c = ' ' then ([], nothing)
  else ([.ofChar c], nothing)

/-- The tokens completed by a character, and what is read from there. -/
def next : Pending → Char → List Token × Pending
  | nothing, c => start c
  | word t, c =>
      if isNameChar c then ([], word (t ++ [c])) else (.ofWord t :: (start c).1, (start c).2)
  | sign t, c =>
      if isSignChar c then ([], sign (t ++ [c])) else (.ofSign t :: (start c).1, (start c).2)
  | name t, c => if c = '"' then ([.name t], nothing) else ([], name (t ++ [c]))

end Pending

/-- The tokens of a statement, from what has been read of one. -/
def tokensFrom : Pending → Text → List Token
  | p, [] => p.tokens
  | p, c :: rest => (p.next c).1 ++ tokensFrom (p.next c).2 rest

/-- The tokens of a statement. -/
def tokens (statement : Text) : List Token :=
  tokensFrom .nothing statement

/-! ### Pieces of statements -/

/-- The piece is read as these tokens before whatever follows. -/
def Lexes (piece : Text) (ts : List Token) : Prop :=
  ∀ rest, tokens (piece ++ rest) = ts ++ tokens rest

namespace Lexes

variable {piece piece' : Text} {ts ts' : List Token}

theorem nil : Lexes [] [] := fun _ => rfl

theorem append (h : Lexes piece ts) (h' : Lexes piece' ts') :
    Lexes (piece ++ piece') (ts ++ ts') := by
  intro rest
  rw [List.append_assoc, h, h', List.append_assoc]

/-- Pieces one after another. -/
theorem flatMap {α : Type} {f : α → Text} {g : α → List Token} {xs : List α}
    (h : ∀ x ∈ xs, Lexes (f x) (g x)) : Lexes (xs.flatMap f) (xs.flatMap g) := by
  induction xs with
  | nil => exact nil
  | cons x xs ih =>
      rw [List.flatMap_cons, List.flatMap_cons]
      exact (h x List.mem_cons_self).append (ih fun y hy => h y (List.mem_cons_of_mem _ hy))

end Lexes

/-- Inside quotation marks everything up to the next one is the name. -/
theorem tokensFrom_name (t n : Text) (h : '"' ∉ n) (rest : Text) :
    tokensFrom (.name t) (n ++ '"' :: rest) = .name (t ++ n) :: tokens rest := by
  induction n generalizing t with
  | nil => simp [tokensFrom, Pending.next, tokens]
  | cons c n ih =>
      have hc : c ≠ '"' := fun hSame => h (hSame ▸ List.mem_cons_self)
      have hRest := ih (t ++ [c]) fun hMem => h (List.mem_cons_of_mem _ hMem)
      rw [List.cons_append, tokensFrom, Pending.next, if_neg hc, List.nil_append, hRest,
        List.append_assoc, List.singleton_append]

theorem isNameChar_quote : isNameChar '"' = false := by decide

/-- A name is quoted as itself. -/
theorem lexes_quoted {n : Text} (h : isName n = true) : Lexes ('"' :: n ++ ['"']) [.name n] := by
  have hQuote : '"' ∉ n := by
    intro hMem
    unfold isName at h
    rw [Bool.and_eq_true, List.all_eq_true] at h
    exact Bool.false_ne_true (isNameChar_quote.symm.trans (h.2 _ hMem))
  intro rest
  have hName := tokensFrom_name [] n hQuote rest
  simpa [tokens, tokensFrom, Pending.next, Pending.start, isNameChar_quote, Pending.isSignChar]
    using hName

theorem lexes_sign (op : Comparator) : Lexes (' ' :: op.sign ++ [' ']) [.sign op] := by
  cases op <;> exact fun _ => rfl

theorem lexes_mark : Lexes ['?'] [.mark] := fun _ => rfl

/-! ### Values for question marks -/

/-- Put values for the question marks of a statement, one for each. -/
def bindValues : List Token → List Text → Option (List Token)
  | [], [] => some []
  | [], _ :: _ => none
  | .mark :: _, [] => none
  | .mark :: ts, v :: vs => (bindValues ts vs).map (.value v :: ·)
  | t :: ts, vs => (bindValues ts vs).map (t :: ·)

/-- The tokens take these values, and no others, for their question marks. -/
def Binds (ts : List Token) (vs : List Text) (ts' : List Token) : Prop :=
  ∀ us ws, bindValues (ts ++ us) (vs ++ ws) = (bindValues us ws).map (ts' ++ ·)

namespace Binds

variable {ts ts' us us' : List Token} {vs ws : List Text}

theorem nil : Binds [] [] [] := fun us ws => by simp

theorem append (h : Binds ts vs ts') (h' : Binds us ws us') :
    Binds (ts ++ us) (vs ++ ws) (ts' ++ us') := by
  intro ts₁ vs₁
  rw [List.append_assoc, List.append_assoc, h, h', Option.map_map]
  exact congrArg (Option.map · _) (funext fun rest => (List.append_assoc _ _ _).symm)

/-- Tokens without question marks take no values. -/
theorem of_not_mem (h : .mark ∉ ts) : Binds ts [] ts := by
  induction ts with
  | nil => exact nil
  | cons t ts ih =>
      have hRest := ih fun hMem => h (List.mem_cons_of_mem _ hMem)
      have hFirst : Binds [t] [] [t] := by
        intro us ws
        cases t with
        | mark => exact absurd List.mem_cons_self h
        | _ => simp [bindValues]
      exact hFirst.append hRest

theorem bindValues_eq (h : Binds ts vs ts') : bindValues ts vs = some ts' := by
  have hEnd := h [] []
  simpa [bindValues] using hEnd

theorem flatMap {α : Type} {f g : α → List Token} {values : α → List Text} {xs : List α}
    (h : ∀ x ∈ xs, Binds (f x) (values x) (g x)) :
    Binds (xs.flatMap f) (xs.flatMap values) (xs.flatMap g) := by
  induction xs with
  | nil => exact nil
  | cons x xs ih =>
      simp only [List.flatMap_cons]
      exact (h x List.mem_cons_self).append (ih fun y hy => h y (List.mem_cons_of_mem _ hy))

end Binds

end TableTalk.Statement
