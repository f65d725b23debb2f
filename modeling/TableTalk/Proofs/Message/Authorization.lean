import TableTalk.Proofs.Message.Course

/-!
# Authorization is never bypassed

A table with an access table is guarded: its rows are read and written on behalf
of senders whose credential was checked, and of no one else.

* `granted_of_follows` places the check.  On every path of a handling a select or
  an insert on a guarded table comes after a credential question, with the password
  of the expanded command, that was answered yes.
* `sameConduct_handle` compares two hosts that differ in the columns and the rows of
  one guarded table.  Handling a message whose sender is not admitted there asks
  both the same questions and ends the same way, so nothing of the table shows.

The main statement joins the two.  It bounds what the handling does; whether the
access table itself is right is the business of the host.
-/

namespace TableTalk

/-- The request reads or writes rows of the table. -/
def Request.IsOn (table : Table) : Request → Prop
  | select t _ _ => t = table
  | insert t _ _ => t = table
  | _ => False

theorem Request.Prepares.not_isOn {request : Request} (h : request.Prepares)
    (table : Table) : ¬ request.IsOn table := by
  cases request with
  | shortcuts | findTable | hasCredential => exact id
  | select | insert | send => exact h.elim

/-- The same table, up to its columns. -/
def Table.SameButColumns (t u : Table) : Prop :=
  { t with columns := u.columns } = u

/-- The request looks no table up and is not about the rows of the given one. -/
def Request.Avoids (guarded : Table) (request : Request) : Prop :=
  (∀ name, request ≠ .findTable name) ∧
    ∀ table, request.IsOn table → ¬ table.SameButColumns guarded

/-- Two lookups find the same, or both find the one table with columns of their own. -/
def SameLookup (guarded : Table) (a b : Except Failure (Option Table)) : Prop :=
  a = b ∨ ∃ t u, a = .ok (some t) ∧ b = .ok (some u) ∧
    t.SameButColumns guarded ∧ u.SameButColumns guarded

/-- Two hosts, in states kept in step by `R`, that answer alike except about the
columns and the rows of one table. -/
structure Host.DifferOnlyIn {σ τ : Type} (guarded : Table) (R : σ → τ → Prop)
    (host : Host σ) (other : Host τ) : Prop where
  lookup : ∀ name s t, R s t →
    SameLookup guarded (host (.findTable name) s).1 (other (.findTable name) t).1 ∧
      R (host (.findTable name) s).2 (other (.findTable name) t).2
  elsewhere : ∀ request s t, R s t → request.Avoids guarded →
    (host request s).1 = (other request t).1 ∧ R (host request s).2 (other request t).2

/-- Two runs with the same result that made the same requests. -/
structure Run.SameConduct {σ τ α : Type} (r : Run σ α) (q : Run τ α) : Prop where
  result : r.result = q.result
  requests : r.requests = q.requests

namespace Handling

open Program (Follows)

variable {limits : Limits} {now : Instant} {message : Message}

/-! ### Where the check stands -/

/-- The work reads and writes rows of its own table only. -/
theorem Working.eq_of_isOn {table : Table} {args : Text} {mode : Command.Mode}
    {xs : List Exchange} {r : Except Failure (Except Rejection Outcome)}
    (h : Working limits now message table args mode xs r) {x : Exchange} (hx : x ∈ xs)
    {t : Table} (ht : x.request.IsOn t) : t = table := by
  cases h with
  | rowRefused | planRefused => exact absurd hx List.not_mem_nil
  | insertFailed | inserted | selectFailed | replyRefused =>
      rw [List.mem_singleton.mp hx] at ht
      exact ht.symm
  | sendFailed | responded =>
      rcases List.mem_cons.mp hx with rfl | hx
      · exact ht.symm
      · rw [List.mem_singleton.mp hx] at ht
        exact absurd ht id

/-- On every path, work on a guarded table comes after a granted credential. -/
theorem granted_of_follows {xs before after : List Exchange} {x : Exchange}
    {r : Except Failure Outcome} (h : Follows (handle limits now message) xs r)
    (hxs : xs = before ++ x :: after) {table : Table} (hx : x.request.IsOn table)
    {accessTable : Text} (hGuard : table.accessTable = some accessTable) :
    ∃ shortcuts, ⟨.shortcuts, .ok shortcuts⟩ ∈ before ∧
      credential message (command limits message shortcuts) accessTable (.ok true) ∈
        before := by
  have hMem : x ∈ xs := by
    rw [hxs]
    exact List.mem_append_right _ List.mem_cons_self
  obtain ⟨shortcuts, found, mode, ys, q, -, rfl, hys, hWork⟩ :=
    working_of_not_prepares h hMem fun hPrepares => hPrepares.not_isOn table hx
  obtain rfl := hWork.eq_of_isOn hys hx
  -- The admission is over when the work begins, so it lies before `x` as a whole.
  have hPrefix : ∀ y ∈ admission message shortcuts (command limits message shortcuts) table,
      y ∈ before := by
    intro y hy
    rcases List.append_eq_append_iff.mp hxs with ⟨zs, rfl, -⟩ | ⟨zs, hAdm, hRest⟩
    · exact List.mem_append_left _ hy
    · cases zs with
      | nil =>
          rw [List.append_nil] at hAdm
          rwa [← hAdm]
      | cons z zs =>
          obtain ⟨rfl, -⟩ := List.cons.inj hRest
          have hAdmitted : x ∈
              admission message shortcuts (command limits message shortcuts) table := by
            rw [hAdm]
            exact List.mem_append_right _ List.mem_cons_self
          exact absurd hx ((prepares_of_mem_admission hAdmitted).not_isOn table)
  rw [admission_of_guarded hGuard] at hPrefix
  refine ⟨shortcuts, hPrefix _ ?_, hPrefix _ ?_⟩
  · exact List.mem_append_left _ List.mem_cons_self
  · exact List.mem_append_right _ List.mem_cons_self

/-! ### Two hosts that differ in a guarded table -/

section TwoHosts

variable {σ τ : Type} {R : σ → τ → Prop} {host : Host σ} {other : Host τ} {guarded : Table}

/-- Asking both hosts the same goes on alike if it is answered and pursued alike. -/
theorem sameConduct_ask_of_ok {α : Type} {request : Request}
    {next next' : request.Answer → Program α} {s : σ} {t : τ} {answer answer' : request.Answer}
    (hHost : (host request s).1 = .ok answer) (hOther : (other request t).1 = .ok answer')
    (hNext : ((next answer).run host (host request s).2).SameConduct
      ((next' answer').run other (other request t).2)) :
    ((Program.ask request next).run host s).SameConduct
      ((Program.ask request next').run other t) := by
  rw [Program.run_ask_of_ok hHost, Program.run_ask_of_ok hOther]
  exact ⟨hNext.result, congrArg (request :: ·) hNext.requests⟩

theorem sameConduct_ask {α : Type} {request : Request}
    {next next' : request.Answer → Program α} {s : σ} {t : τ}
    (hAnswer : (host request s).1 = (other request t).1)
    (hNext : ∀ answer, (host request s).1 = .ok answer →
      ((next answer).run host (host request s).2).SameConduct
        ((next' answer).run other (other request t).2)) :
    ((Program.ask request next).run host s).SameConduct
      ((Program.ask request next').run other t) := by
  cases hHost : (host request s).1 with
  | error e =>
      rw [Program.run_ask_of_error hHost, Program.run_ask_of_error (hAnswer.symm.trans hHost)]
      exact ⟨rfl, rfl⟩
  | ok answer =>
      exact sameConduct_ask_of_ok hHost (hAnswer.symm.trans hHost) (hNext answer hHost)

/-- A program that asks nothing about the table cannot tell the two hosts apart. -/
theorem sameConduct_of_asks {α : Type} (hDiffer : Host.DifferOnlyIn guarded R host other)
    {p : Program α} (hAsks : p.Asks (Request.Avoids guarded)) {s : σ} {t : τ} (hR : R s t) :
    (p.run host s).SameConduct (p.run other t) := by
  induction p generalizing s t with
  | done result => exact ⟨rfl, rfl⟩
  | ask request next ih =>
      obtain ⟨hAvoids, hNext⟩ := hAsks
      obtain ⟨hAnswer, hState⟩ := hDiffer.elsewhere request s t hR hAvoids
      exact sameConduct_ask hAnswer fun answer _ => ih answer (hNext answer) hState

/-- What is asked about the rows of another table avoids the guarded one. -/
theorem avoids_of_isOn {request : Request} {table : Table} (hOn : request.IsOn table)
    (hOther : ¬ table.SameButColumns guarded) : request.Avoids guarded := by
  cases request with
  | shortcuts | findTable | hasCredential | send => exact hOn.elim
  | select | insert =>
      refine ⟨fun name hName => Request.noConfusion hName, fun t ht => ?_⟩
      obtain rfl : table = t := hOn.symm.trans ht
      exact hOther

theorem avoids_of_not_isOn {request : Request} (hName : ∀ name, request ≠ .findTable name)
    (hOn : ∀ t, ¬ request.IsOn t) : request.Avoids guarded :=
  ⟨hName, fun t ht => absurd ht (hOn t)⟩

/-- The work on another table avoids the guarded one. -/
theorem asks_work {table : Table} {args : Text} {mode : Command.Mode}
    (hOther : ¬ table.SameButColumns guarded) :
    (work limits now message table args mode).Asks (Request.Avoids guarded) := by
  cases mode with
  | add =>
      change (add now message table args).Asks _
      unfold add
      cases Add.row now table args with
      | error cause => exact trivial
      | ok values =>
          exact ⟨avoids_of_isOn rfl hOther, fun _ => trivial⟩
  | query =>
      change (query limits now message table args).Asks _
      unfold query
      cases Plan.compile now table args with
      | error cause => exact trivial
      | ok plan =>
          simp only [Reply.toPlan_eq, Program.bind]
          refine ⟨avoids_of_isOn rfl hOther, fun found => ?_⟩
          change (deliver message (Reply.answer limits.replyRows plan found)).Asks _
          unfold deliver
          cases Reply.answer limits.replyRows plan found with
          | error cause => exact trivial
          | ok body => exact ⟨avoids_of_not_isOn (fun _ => Request.noConfusion) fun _ => id, fun _ => trivial⟩

theorem asks_onTable {table : Table} {command : Text}
    (hOther : ¬ table.SameButColumns guarded) :
    (onTable limits now message command table).Asks (Request.Avoids guarded) := by
  unfold onTable
  cases Command.mode command with
  | error cause => exact trivial
  | ok mode =>
      simp only [Guard.check]
      cases table.accessTable with
      | none => exact asks_work hOther
      | some accessTable =>
          refine ⟨avoids_of_not_isOn (fun _ => Request.noConfusion) fun _ => id, fun granted => ?_⟩
          cases granted with
          | true => exact asks_work hOther
          | false => exact trivial

/-- Without a grant a command does not get past the check, whatever the columns are. -/
theorem sameConduct_onTable_of_denied (hDiffer : Host.DifferOnlyIn guarded R host other)
    {table table' : Table} (hTable : table.SameButColumns guarded)
    (hTable' : table'.SameButColumns guarded) {accessTable : Text}
    (hGuard : guarded.accessTable = some accessTable) {command : Text} {s : σ} {t : τ}
    (hR : R s t)
    (hDenied : ∀ password, ⟨.hasCredential accessTable message.sender password, .ok true⟩ ∉
      (onTable limits now message command table).exchanges host s) :
    ((onTable limits now message command table).run host s).SameConduct
      ((onTable limits now message command table').run other t) := by
  have hGuarded : table.accessTable = some accessTable :=
    (congrArg Table.accessTable hTable).trans hGuard
  have hGuarded' : table'.accessTable = some accessTable :=
    (congrArg Table.accessTable hTable').trans hGuard
  unfold onTable at hDenied ⊢
  cases hMode : Command.mode command with
  | error cause => exact ⟨rfl, rfl⟩
  | ok mode =>
      simp only [hMode, Guard.check, hGuarded, hGuarded'] at hDenied ⊢
      obtain ⟨hAnswer, -⟩ := hDiffer.elsewhere
        (.hasCredential accessTable message.sender (Command.splitPassword command).2) s t hR
        (avoids_of_not_isOn (fun _ => Request.noConfusion) fun _ => id)
      -- Both hosts give one answer; a grant would be in the exchanges.
      refine sameConduct_ask hAnswer fun granted hGranted => ?_
      cases granted with
      | false => exact ⟨rfl, rfl⟩
      | true => exact absurd (Program.answer_mem_exchanges hGranted) (hDenied _)

theorem sameConduct_expanded (hDiffer : Host.DifferOnlyIn guarded R host other)
    {accessTable : Text} (hGuard : guarded.accessTable = some accessTable) {command : Text}
    {s : σ} {t : τ} (hR : R s t)
    (hDenied : ∀ password, ⟨.hasCredential accessTable message.sender password, .ok true⟩ ∉
      (expanded limits now message command).exchanges host s) :
    ((expanded limits now message command).run host s).SameConduct
      ((expanded limits now message command).run other t) := by
  obtain ⟨hLookup, hState⟩ := hDiffer.lookup (Command.targetName command) s t hR
  unfold expanded at hDenied ⊢
  rcases hLookup with hSame | ⟨table, table', hFound, hFound', hTable, hTable'⟩
  · refine sameConduct_ask hSame fun found hFound => ?_
    rcases found with _ | table
    · exact ⟨rfl, rfl⟩
    -- The same answer may still be the guarded table, found with the same columns.
    by_cases hTable : table.SameButColumns guarded
    · refine sameConduct_onTable_of_denied hDiffer hTable hTable hGuard hState ?_
      exact fun password hMem => hDenied password (Program.mem_exchanges_of_mem hFound hMem)
    · exact sameConduct_of_asks hDiffer (asks_onTable hTable) hState
  · refine sameConduct_ask_of_ok hFound hFound' ?_
    refine sameConduct_onTable_of_denied hDiffer hTable hTable' hGuard hState ?_
    exact fun password hMem => hDenied password (Program.mem_exchanges_of_mem hFound hMem)

theorem sameConduct_stages (hDiffer : Host.DifferOnlyIn guarded R host other)
    {accessTable : Text} (hGuard : guarded.accessTable = some accessTable)
    {s : σ} {t : τ} (hR : R s t)
    (hDenied : ∀ password, ⟨.hasCredential accessTable message.sender password, .ok true⟩ ∉
      (stages limits now message).exchanges host s) :
    ((stages limits now message).run host s).SameConduct
      ((stages limits now message).run other t) := by
  unfold stages at hDenied ⊢
  split at hDenied
  case isFalse hBody =>
    rw [if_neg hBody]
    exact ⟨rfl, rfl⟩
  case isTrue hBody =>
    rw [if_pos hBody]
    obtain ⟨hAnswer, hState⟩ := hDiffer.elsewhere .shortcuts s t hR
      (avoids_of_not_isOn (fun _ => Request.noConfusion) fun _ => id)
    refine sameConduct_ask hAnswer fun shortcuts hShortcuts => ?_
    refine sameConduct_expanded hDiffer hGuard hState ?_
    exact fun password hMem => hDenied password (Program.mem_exchanges_of_mem hShortcuts hMem)

/-- A sender who is not admitted cannot tell the two hosts apart. -/
theorem sameConduct_handle (hDiffer : Host.DifferOnlyIn guarded R host other)
    {accessTable : Text} (hGuard : guarded.accessTable = some accessTable)
    {s : σ} {t : τ} (hR : R s t)
    (hDenied : ∀ password, ⟨.hasCredential accessTable message.sender password, .ok true⟩ ∉
      (handle limits now message).exchanges host s) :
    ((handle limits now message).run host s).SameConduct
      ((handle limits now message).run other t) := by
  unfold handle at hDenied ⊢
  rw [Program.exchanges_bind_done] at hDenied
  rw [Program.run_bind_done, Program.run_bind_done]
  have hStages := sameConduct_stages hDiffer hGuard hR hDenied
  exact ⟨congrArg (Except.map outcome) hStages.result, hStages.requests⟩

end TwoHosts

/-- Hosts of one table, with columns and rows of their own, differ only in that table. -/
theorem differOnlyIn_ofTable (table : Table) (granted : Bool) (columns columns' : List Column)
    (found found' : List Row) :
    Host.DifferOnlyIn table (fun _ _ => True)
      (Host.ofTable { table with columns } granted found)
      (Host.ofTable { table with columns := columns' } granted found') := by
  constructor
  · intro name s t _
    refine ⟨?_, trivial⟩
    by_cases hName : name = table.displayName
    · subst hName
      refine Or.inr ⟨{ table with columns }, { table with columns := columns' }, ?_, ?_, rfl, rfl⟩
      · simp [Host.ofTable]
      · simp [Host.ofTable]
    · exact Or.inl (by simp [Host.ofTable, hName])
  · intro request s t _ hAvoids
    refine ⟨?_, trivial⟩
    cases request with
    | findTable name => exact absurd rfl (hAvoids.1 name)
    | select t query names =>
        have hOther : ∀ cs, ¬ { t with columns := cs } = { table with columns := cs } := by
          intro cs hEq
          have hSame := congrArg (fun u : Table => { u with columns := table.columns }) hEq
          exact hAvoids.2 t rfl hSame
        simp [Host.ofTable, hOther]
    | shortcuts | hasCredential | insert | send => rfl

/-- A guarded table, with the columns given. -/
def guardedHouse (columns : List Column) : Table :=
  ⟨['h', 'o', 'u', 's', 'e'], ['h', 'o', 'u', 's', 'e'], columns, some ['a', 'c', 'l']⟩

/-- The only column of a house. -/
def streetColumn : Column := { storageName := ['s'], displayName := ['S'], type := .text }

/-- A question about the streets of all houses, with a password. -/
def streetQuestion : Message :=
  ⟨['7'], ['@', 'h', 'o', 'u', 's', 'e', ' ', '?', 'S', ' ', '#', 'p', 'w']⟩

/-- The handling of the question about the streets. -/
def streetHandling : Program Outcome :=
  handle {} (.midnight ⟨2024, 1, 10, by decide⟩) streetQuestion

/-- The exchanges before any row of a house is read. -/
def streetCheck (granted : Bool) : List Exchange :=
  [⟨.shortcuts, .ok []⟩,
    ⟨.findTable ['h', 'o', 'u', 's', 'e'], .ok (some (guardedHouse [streetColumn]))⟩,
    ⟨.hasCredential ['a', 'c', 'l'] ['7'] ['p', 'w'], .ok granted⟩]

/-- **Authorization is never bypassed.**  On every host a select or an insert on a
guarded table is preceded by the granted credential of the sender with the password of
the expanded command.  On two hosts that differ only in the columns and the rows of a
guarded table, a message that is granted no credential for it is handled with the same
result and the same requests. -/
theorem rows_only_behind_granted_credential {σ τ : Type} (limits : Limits) (now : Instant)
    (message : Message) :
    (∀ (host : Host σ) (s : σ) (before after : List Exchange) (x : Exchange) (table : Table)
        (accessTable : Text),
      (handle limits now message).exchanges host s = before ++ x :: after →
      x.request.IsOn table → table.accessTable = some accessTable →
      ∃ shortcuts, ⟨.shortcuts, .ok shortcuts⟩ ∈ before ∧
        ⟨.hasCredential accessTable message.sender
          (Command.splitPassword
            (Shortcut.expand shortcuts limits.shortcutDepth message.body)).2, .ok true⟩ ∈
          before) ∧
    ∀ (host : Host σ) (other : Host τ) (R : σ → τ → Prop) (s : σ) (t : τ) (guarded : Table)
        (accessTable : Text),
      Host.DifferOnlyIn guarded R host other → R s t →
      guarded.accessTable = some accessTable →
      (∀ password, ⟨.hasCredential accessTable message.sender password, .ok true⟩ ∉
        (handle limits now message).exchanges host s) →
      ((handle limits now message).run host s).result =
          ((handle limits now message).run other t).result ∧
        ((handle limits now message).run host s).requests =
          ((handle limits now message).run other t).requests := by
  constructor
  · intro host s before after x table accessTable hxs hx hGuard
    exact granted_of_follows (Program.follows_run host _ s) hxs hx hGuard
  · intro host other R s t guarded accessTable hDiffer hR hGuard hDenied
    have hSame := sameConduct_handle hDiffer hGuard hR hDenied
    exact ⟨hSame.result, hSame.requests⟩

/-- With a credential the streets are read; without one a house with other columns and
other rows is handled like this one. -/
theorem rows_only_behind_granted_credential_house :
    (streetHandling.exchanges
        (Host.ofTable (guardedHouse [streetColumn]) true [[['E', 'l', 'm']]]) () =
      streetCheck true ++ ⟨.select (guardedHouse [streetColumn]) {} [['s']],
        .ok [[['E', 'l', 'm']]]⟩ :: [⟨.send ['7'] ['S', ':', 'E', 'l', 'm'], .ok ()⟩] ∧
      ∃ shortcuts, ⟨.shortcuts, .ok shortcuts⟩ ∈ streetCheck true ∧
        ⟨.hasCredential ['a', 'c', 'l'] ['7']
          (Command.splitPassword
            (Shortcut.expand shortcuts 16 streetQuestion.body)).2, .ok true⟩ ∈
          streetCheck true) ∧
    (streetHandling.exchanges
        (Host.ofTable (guardedHouse [streetColumn]) false [[['E', 'l', 'm']]]) () =
      streetCheck false ∧
      (streetHandling.run
          (Host.ofTable (guardedHouse [streetColumn]) false [[['E', 'l', 'm']]]) ()).result =
        (streetHandling.run (Host.ofTable (guardedHouse []) false []) ()).result ∧
      (streetHandling.run
          (Host.ofTable (guardedHouse [streetColumn]) false [[['E', 'l', 'm']]]) ()).requests =
        (streetHandling.run (Host.ofTable (guardedHouse []) false []) ()).requests) := by
  obtain ⟨hAfter, hSame⟩ := rows_only_behind_granted_credential (σ := Unit) (τ := Unit) {}
    (.midnight ⟨2024, 1, 10, by decide⟩) streetQuestion
  have hGranted : streetHandling.exchanges
      (Host.ofTable (guardedHouse [streetColumn]) true [[['E', 'l', 'm']]]) () =
    streetCheck true ++ ⟨.select (guardedHouse [streetColumn]) {} [['s']],
      .ok [[['E', 'l', 'm']]]⟩ :: [⟨.send ['7'] ['S', ':', 'E', 'l', 'm'], .ok ()⟩] := rfl
  have hDenied : streetHandling.exchanges
      (Host.ofTable (guardedHouse [streetColumn]) false [[['E', 'l', 'm']]]) () =
    streetCheck false := rfl
  refine ⟨⟨hGranted, ?_⟩, hDenied, ?_⟩
  · exact hAfter _ () _ _ _ (guardedHouse [streetColumn]) ['a', 'c', 'l'] hGranted rfl rfl
  · refine hSame _ _ (fun _ _ => True) () () (guardedHouse []) ['a', 'c', 'l']
      (differOnlyIn_ofTable (guardedHouse []) false [streetColumn] [] _ _) trivial rfl ?_
    intro password hMem
    have hCheck : ⟨.hasCredential ['a', 'c', 'l'] ['7'] password, .ok true⟩ ∈
        streetCheck false := hDenied ▸ hMem
    simp [streetCheck] at hCheck

end Handling

end TableTalk
