import TableTalk.Failure
import TableTalk.Table.Column
import TableTalk.Query.Constraint

/-!
# Requests to collaborators

Handling a message needs metadata, credentials, rows and delivery from outside.
`Program` is a computation that asks for them one at a time: a tree whose nodes
are requests and whose branches are the possible answers.  A `Host` answers
requests from a state of its own.  Running a program keeps the requests made, so
that order and number of calls are facts about a value.
-/

namespace TableTalk

/-- What is asked of collaborators. -/
inductive Request where
  /-- Every shortcut there is -/
  | shortcuts
  /-- The data table with a display name -/
  | findTable (name : Text)
  /-- Whether an access table pairs a phone with a password -/
  | hasCredential (accessTable phone password : Text)
  /-- The cells of some columns in the rows that satisfy a query -/
  | select (table : Table) (query : Query) (columns : List Text)
  /-- Keep a row on behalf of a sender -/
  | insert (table : Table) (values : RowValues) (sender : Text)
  | send (phone body : Text)
deriving DecidableEq, Repr

namespace Request

/-- What a request is answered with. -/
@[reducible] def Answer : Request → Type
  | shortcuts => List Shortcut
  | findTable _ => Option Table
  | hasCredential _ _ _ => Bool
  | select _ _ _ => List Row
  | insert _ _ _ => Unit
  | send _ _ => Unit

end Request

/-- A computation that makes requests one after another. -/
inductive Program (α : Type) where
  /-- The result, with no further request -/
  | done (result : α)
  /-- A request, and how to go on with its answer -/
  | ask (request : Request) (next : request.Answer → Program α)

/-- Collaborators: each request is answered, or fails, and the state moves on. -/
def Host (σ : Type) : Type :=
  (request : Request) → σ → Except Failure request.Answer × σ

/-- What running a program gives. -/
structure Run (σ α : Type) where
  /-- The result, or the failure that stopped the run -/
  result : Except Failure α
  requests : List Request
  state : σ

namespace Program

/-- Run a program on a host.  The first failure ends it. -/
def run {σ α : Type} (host : Host σ) : Program α → σ → Run σ α
  | done result, s => ⟨.ok result, [], s⟩
  | ask request next, s =>
      match host request s with
      | (.error e, s) => ⟨.error e, [request], s⟩
      | (.ok answer, s) =>
          let rest := (next answer).run host s
          ⟨rest.result, request :: rest.requests, rest.state⟩

/-- Go on with the result of a program. -/
def bind {α β : Type} : Program α → (α → Program β) → Program β
  | done result, next => next result
  | ask request more, next => ask request fun answer => (more answer).bind next

end Program

end TableTalk
