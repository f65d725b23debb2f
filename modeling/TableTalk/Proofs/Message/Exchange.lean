import TableTalk.Message.Request

/-!
# Exchanges with collaborators

A run of a program is a conversation: every request is put to the host, and the
host answers it or fails.  This module keeps the answers beside the requests and
describes the conversation without the host that took part in it.

* `Program.exchanges` lists what was asked and answered in one run;
  `requests_run` says that it is the requests of the run with the answers added.
* `Program.Follows` says that a program can make some exchanges and end with some
  result.  By `follows_run` every run on every host is such a path, so a
  property of all paths is a property of all hosts.
* `Host.Gives` follows the states of the host along a conversation (`gives_exchanges`).
* `Program.Asks` bounds what a program may ask for on any of its branches.
-/

namespace TableTalk

/-- A request and the answer to it, or the failure that came instead. -/
structure Exchange where
  /-- What was asked -/
  request : Request
  /-- What the host said -/
  answer : Except Failure request.Answer

/-- A host of one table, which answers the same however often it is asked.  Rows are
found in that table, with whatever columns it is asked for, and in no other. -/
def Host.ofTable (table : Table) (granted : Bool) (found : List Row) : Host Unit
  | .shortcuts, s => (.ok [], s)
  | .findTable name, s => (.ok (if name = table.displayName then some table else none), s)
  | .hasCredential _ _ _, s => (.ok granted, s)
  | .select t _ _, s => (.ok (if { t with columns := table.columns } = table then found else []), s)
  | .insert _ _ _, s => (.ok (), s)
  | .send _ _, s => (.ok (), s)

/-- The host gives these answers one after another, on its way from one state to another. -/
def Host.Gives {σ : Type} (host : Host σ) : List Exchange → σ → σ → Prop
  | [], s, last => last = s
  | x :: xs, s, last => (host x.request s).1 = x.answer ∧ Gives host xs (host x.request s).2 last

theorem Host.Gives.of_append {σ : Type} {host : Host σ} {xs ys : List Exchange} {s last : σ}
    (h : host.Gives (xs ++ ys) s last) :
    ∃ middle, host.Gives xs s middle ∧ host.Gives ys middle last := by
  induction xs generalizing s with
  | nil => exact ⟨s, rfl, h⟩
  | cons x xs ih =>
      obtain ⟨hAnswer, hRest⟩ := h
      obtain ⟨middle, hFirst, hLast⟩ := ih hRest
      exact ⟨middle, ⟨hAnswer, hFirst⟩, hLast⟩

/-- What is said in a conversation the host says in some state. -/
theorem Host.Gives.exists_of_mem {σ : Type} {host : Host σ} {xs : List Exchange} {s last : σ}
    (h : host.Gives xs s last) {x : Exchange} (hx : x ∈ xs) :
    ∃ s', (host x.request s').1 = x.answer := by
  induction xs generalizing s with
  | nil => cases hx
  | cons y ys ih =>
      obtain ⟨hAnswer, hRest⟩ := h
      rcases List.mem_cons.mp hx with rfl | hx
      · exact ⟨s, hAnswer⟩
      · exact ih hRest hx

namespace Program

variable {σ α β : Type}

/-- The exchanges of a run, in order.  The first failure is the last one. -/
def exchanges (host : Host σ) : Program α → σ → List Exchange
  | done _, _ => []
  | ask request next, s =>
      match host request s with
      | (.error e, _) => [⟨request, .error e⟩]
      | (.ok answer, s) => ⟨request, .ok answer⟩ :: (next answer).exchanges host s

/-- The program can make these exchanges, in this order, and end with this result. -/
inductive Follows : Program α → List Exchange → Except Failure α → Prop
  | done (result : α) : Follows (done result) [] (.ok result)
  | failed (request : Request) (next : request.Answer → Program α) (e : Failure) :
      Follows (ask request next) [⟨request, .error e⟩] (.error e)
  | answered (request : Request) (next : request.Answer → Program α)
      (answer : request.Answer) (xs : List Exchange) (r : Except Failure α)
      (hRest : Follows (next answer) xs r) :
      Follows (ask request next) (⟨request, .ok answer⟩ :: xs) r

/-- Every request on every branch of the program has the property. -/
def Asks (P : Request → Prop) : Program α → Prop
  | done _ => True
  | ask request next => P request ∧ ∀ answer, (next answer).Asks P

theorem run_ask_of_error {host : Host σ} {request : Request}
    {next : request.Answer → Program α} {s : σ} {e : Failure}
    (h : (host request s).1 = .error e) :
    (ask request next).run host s = ⟨.error e, [request], (host request s).2⟩ := by
  rw [run]
  rcases hHost : host request s with ⟨answer, s'⟩
  rw [hHost] at h
  obtain rfl : answer = .error e := h
  rfl

theorem run_ask_of_ok {host : Host σ} {request : Request}
    {next : request.Answer → Program α} {s : σ} {answer : request.Answer}
    (h : (host request s).1 = .ok answer) :
    (ask request next).run host s =
      let rest := (next answer).run host (host request s).2
      ⟨rest.result, request :: rest.requests, rest.state⟩ := by
  rw [run]
  rcases hHost : host request s with ⟨answer', s'⟩
  rw [hHost] at h
  obtain rfl : answer' = .ok answer := h
  rfl

theorem exchanges_ask_of_ok {host : Host σ} {request : Request}
    {next : request.Answer → Program α} {s : σ} {answer : request.Answer}
    (h : (host request s).1 = .ok answer) :
    (ask request next).exchanges host s =
      ⟨request, .ok answer⟩ :: (next answer).exchanges host (host request s).2 := by
  rw [exchanges]
  rcases hHost : host request s with ⟨answer', s'⟩
  rw [hHost] at h
  obtain rfl : answer' = .ok answer := h
  rfl

theorem failure_mem_exchanges {host : Host σ} {request : Request}
    {next : request.Answer → Program α} {s : σ} {e : Failure}
    (h : (host request s).1 = .error e) :
    ⟨request, .error e⟩ ∈ (ask request next).exchanges host s := by
  rw [exchanges]
  rcases hHost : host request s with ⟨answer, s'⟩
  rw [hHost] at h
  obtain rfl : answer = .error e := h
  exact List.mem_cons_self

theorem answer_mem_exchanges {host : Host σ} {request : Request}
    {next : request.Answer → Program α} {s : σ} {answer : request.Answer}
    (h : (host request s).1 = .ok answer) :
    ⟨request, .ok answer⟩ ∈ (ask request next).exchanges host s := by
  rw [exchanges_ask_of_ok h]
  exact List.mem_cons_self

theorem mem_exchanges_of_mem {host : Host σ} {request : Request}
    {next : request.Answer → Program α} {s : σ} {answer : request.Answer}
    (h : (host request s).1 = .ok answer) {x : Exchange}
    (hx : x ∈ (next answer).exchanges host (host request s).2) :
    x ∈ (ask request next).exchanges host s := by
  rw [exchanges_ask_of_ok h]
  exact List.mem_cons_of_mem _ hx

theorem requests_run (host : Host σ) (p : Program α) (s : σ) :
    (p.run host s).requests = (p.exchanges host s).map Exchange.request := by
  induction p generalizing s with
  | done result => rfl
  | ask request next ih =>
      rw [run, exchanges]
      rcases host request s with ⟨e | answer, s'⟩
      · rfl
      · simp only [List.map_cons]
        rw [ih answer s']

/-- Every run is a path through its program. -/
theorem follows_run (host : Host σ) (p : Program α) (s : σ) :
    Follows p (p.exchanges host s) (p.run host s).result := by
  induction p generalizing s with
  | done result => exact Follows.done result
  | ask request next ih =>
      rw [run, exchanges]
      rcases host request s with ⟨e | answer, s'⟩
      · exact Follows.failed request next e
      · exact Follows.answered request next answer _ _ (ih answer s')

/-- The exchanges of a run lead the host to the state the run ends in. -/
theorem gives_exchanges (host : Host σ) (p : Program α) (s : σ) :
    host.Gives (p.exchanges host s) s (p.run host s).state := by
  induction p generalizing s with
  | done result => rfl
  | ask request next ih =>
      rw [run, exchanges]
      rcases hHost : host request s with ⟨e | answer, s'⟩
      · refine ⟨congrArg Prod.fst hHost, ?_⟩
        rw [hHost]
        rfl
      · refine ⟨congrArg Prod.fst hHost, ?_⟩
        rw [hHost]
        exact ih answer s'

/-- Reporting a result in other words asks nothing more. -/
theorem run_bind_done (host : Host σ) (p : Program α) (f : α → β) (s : σ) :
    (p.bind fun a => done (f a)).run host s =
      ⟨(p.run host s).result.map f, (p.run host s).requests, (p.run host s).state⟩ := by
  induction p generalizing s with
  | done a => rfl
  | ask request next ih =>
      rw [bind, run, run]
      rcases host request s with ⟨e | answer, s'⟩
      · rfl
      · simp only
        rw [ih answer s']

theorem exchanges_bind_done (host : Host σ) (p : Program α) (f : α → β) (s : σ) :
    (p.bind fun a => done (f a)).exchanges host s = p.exchanges host s := by
  induction p generalizing s with
  | done a => rfl
  | ask request next ih =>
      rw [bind, exchanges, exchanges]
      rcases host request s with ⟨e | answer, s'⟩
      · rfl
      · simp only
        rw [ih answer s']

theorem Follows.of_done {a : α} {xs : List Exchange} {r : Except Failure α}
    (h : Follows (Program.done a) xs r) : xs = [] ∧ r = .ok a := by
  cases h
  exact ⟨rfl, rfl⟩

/-- A path through a request: it fails there, or goes on with an answer. -/
theorem Follows.of_ask {request : Request} {next : request.Answer → Program α}
    {xs : List Exchange} {r : Except Failure α} (h : Follows (Program.ask request next) xs r) :
    (∃ e, xs = [⟨request, .error e⟩] ∧ r = .error e) ∨
      ∃ answer ys, xs = ⟨request, .ok answer⟩ :: ys ∧ Follows (next answer) ys r := by
  cases h with
  | failed _ _ e => exact Or.inl ⟨e, rfl, rfl⟩
  | answered _ _ answer ys _ hRest => exact Or.inr ⟨answer, ys, rfl, hRest⟩

/-- A path through two programs in a row stops in the first or passes through both. -/
theorem Follows.of_bind {p : Program α} {f : α → Program β} {xs : List Exchange}
    {r : Except Failure β} (h : Follows (p.bind f) xs r) :
    (∃ e, r = .error e ∧ Follows p xs (.error e)) ∨
      ∃ a ys zs, xs = ys ++ zs ∧ Follows p ys (.ok a) ∧ Follows (f a) zs r := by
  induction p generalizing xs with
  | done a => exact Or.inr ⟨a, [], xs, rfl, Follows.done a, h⟩
  | ask request next ih =>
      rw [bind] at h
      rcases h.of_ask with ⟨e, rfl, rfl⟩ | ⟨answer, ys, rfl, hRest⟩
      · exact Or.inl ⟨e, rfl, Follows.failed request next e⟩
      · rcases ih answer hRest with ⟨e, rfl, hp⟩ | ⟨a, us, vs, rfl, hp, hf⟩
        · exact Or.inl ⟨e, rfl, Follows.answered request next answer ys _ hp⟩
        · exact Or.inr ⟨a, _, vs, rfl, Follows.answered request next answer us _ hp, hf⟩

end Program

end TableTalk
