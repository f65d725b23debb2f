import TableTalk.Proofs.Message.Course

/-!
# The protocol of a handling

On every host a handling makes its requests in one order: the shortcuts, the table, the
credential if the table has an access table, and then either one insert or one select and
the reply to it.  It may stop after any of them.  A failure is always the last exchange and
is handed on as it is, and a handling ends in a failure in no other way.  What a handling
reports is what happened: a row was inserted or a reply was sent, with these values or this
text, on behalf of the sender of the message or to that sender.

`Handling.Protocol` collects these statements for one conversation, and
`Handling.protocol_of_run` says that every run of a handling keeps to it.
-/

namespace TableTalk

namespace Program

variable {α : Type} {p : Program α} {xs : List Exchange} {r : Except Failure α} {e : Failure}

/-- A failure is the last exchange, and the result. -/
theorem Follows.of_failed (h : Follows p xs r) {before after : List Exchange} {x : Exchange}
    (hxs : xs = before ++ x :: after) (hx : x.answer = .error e) :
    after = [] ∧ r = .error e := by
  induction h generalizing before with
  | done result => exact absurd hxs (by simp)
  | failed request next e' =>
      rcases before with _ | ⟨y, before⟩
      · obtain ⟨rfl, rfl⟩ := List.cons.inj hxs
        obtain rfl := Except.error.inj hx
        exact ⟨rfl, rfl⟩
      · exact absurd (List.cons.inj hxs).2 (by simp)
  | answered request next answer ys r hRest ih =>
      rcases before with _ | ⟨y, before⟩
      · obtain ⟨rfl, rfl⟩ := List.cons.inj hxs
        cases hx
      · exact ih (List.cons.inj hxs).2

/-- A program fails with a request only. -/
theorem Follows.exists_failed (h : Follows p xs r) (hr : r = .error e) :
    ∃ before x, xs = before ++ [x] ∧ x.answer = .error e := by
  induction h with
  | done result => cases hr
  | failed request next e' =>
      obtain rfl := Except.error.inj hr
      exact ⟨[], _, rfl, rfl⟩
  | answered request next answer ys r hRest ih =>
      obtain ⟨before, x, rfl, hx⟩ := ih hr
      exact ⟨_ :: before, x, rfl, hx⟩

end Program

/-- The request is made for this sender, if it is made for anyone. -/
def Request.ForSender (sender : Text) : Request → Prop
  | hasCredential _ phone _ => phone = sender
  | insert _ _ author => author = sender
  | send phone _ => phone = sender
  | shortcuts | findTable _ | select _ _ _ => True

namespace Handling

open Program (Follows)

variable {limits : Limits} {now : Instant} {message : Message}

/-! ### The order of requests -/

/-- The exchanges of a handling that meets no obstacle: the shortcuts, the table and, if it
has an access table, the credential, and then the work in the mode of the command.  A
command without a mode goes no further than its table. -/
inductive Smooth (limits : Limits) (message : Message) (shortcuts : List Shortcut)
    (table : Table) : List Exchange → Prop
  | add (hMode : Command.mode (command limits message shortcuts) = .ok .add)
      (values : RowValues) :
      Smooth limits message shortcuts table
        (admission message shortcuts (command limits message shortcuts) table ++
          [⟨.insert table values message.sender, .ok ()⟩])
  | query (hMode : Command.mode (command limits message shortcuts) = .ok .query)
      (query : Query) (columns : List Text) (found : List Row) (body : Text) :
      Smooth limits message shortcuts table
        (admission message shortcuts (command limits message shortcuts) table ++
          [⟨.select table query columns, .ok found⟩, ⟨.send message.sender body, .ok ()⟩])
  | modeless (cause : Rejection)
      (hMode : Command.mode (command limits message shortcuts) = .error cause) :
      Smooth limits message shortcuts table
        (lookup shortcuts (command limits message shortcuts) (.ok (some table)))

/-- The exchanges are the beginning of others, but for the last answer. -/
structure BeginsAs (xs full : List Exchange) : Prop where
  requests : xs.map Exchange.request <+: full.map Exchange.request
  answers : xs.dropLast <+: full

/-- The requests are made in order: they begin a handling that meets no obstacle, and every
answer but the last is the one that handling goes on with. -/
def InOrder (limits : Limits) (message : Message) (xs : List Exchange) : Prop :=
  ∃ shortcuts table full, Smooth limits message shortcuts table full ∧ BeginsAs xs full

variable {shortcuts : List Shortcut} {table : Table} {xs ys full : List Exchange}

theorem beginsAs_nil (full : List Exchange) : BeginsAs [] full :=
  ⟨by simp, by simp⟩

/-- The first exchange may have any answer if it is also the last. -/
theorem beginsAs_first {request : Request} (a b : Except Failure request.Answer)
    (rest : List Exchange) : BeginsAs [⟨request, a⟩] (⟨request, b⟩ :: rest) :=
  ⟨⟨rest.map Exchange.request, rfl⟩, List.nil_prefix⟩

theorem BeginsAs.append_left (h : BeginsAs xs full) (before : List Exchange) :
    BeginsAs (before ++ xs) (before ++ full) := by
  constructor
  · rw [List.map_append, List.map_append]
    exact (List.prefix_append_right_inj _).mpr h.requests
  · rcases List.eq_nil_or_concat xs with rfl | ⟨front, x, rfl⟩
    · rw [List.append_nil]
      exact (List.dropLast_prefix before).trans (List.prefix_append before full)
    · have hFront : front <+: full := by simpa using h.answers
      rw [List.concat_eq_append, ← List.append_assoc, List.dropLast_concat]
      exact (List.prefix_append_right_inj before).mpr hFront

theorem BeginsAs.of_shorter (h : BeginsAs xs ys) (hPrefix : ys <+: full) : BeginsAs xs full :=
  ⟨h.requests.trans (hPrefix.map _), h.answers.trans hPrefix⟩

/-- Whatever the mode, a handling without obstacles finds its table first. -/
theorem exists_smooth (limits : Limits) (message : Message) (shortcuts : List Shortcut)
    (table : Table) :
    ∃ full, Smooth limits message shortcuts table full ∧
      lookup shortcuts (command limits message shortcuts) (.ok (some table)) <+: full := by
  cases hMode : Command.mode (command limits message shortcuts) with
  | error cause => exact ⟨_, .modeless cause hMode, List.prefix_rfl⟩
  | ok mode =>
      cases mode with
      | add =>
          refine ⟨_, .add hMode [], ?_⟩
          exact (List.prefix_append _ _).trans (List.prefix_append _ _)
      | query =>
          refine ⟨_, .query hMode {} [] [] [], ?_⟩
          exact (List.prefix_append _ _).trans (List.prefix_append _ _)

theorem beginsAs_lookup {command : Text} {found : Except Failure (Option Table)} :
    BeginsAs (lookup shortcuts command found) (lookup shortcuts command (.ok (some table))) :=
  ⟨List.prefix_rfl, ⟨_, rfl⟩⟩

theorem beginsAs_credential {command accessTable : Text} {granted : Except Failure Bool}
    (hGuard : table.accessTable = some accessTable) :
    BeginsAs (lookup shortcuts command (.ok (some table)) ++
        [credential message command accessTable granted])
      (admission message shortcuts command table) := by
  rw [admission_of_guarded hGuard]
  exact (beginsAs_first _ _ []).append_left _

/-- A handling that stops on the way has come so far in order. -/
theorem Stopped.inOrder {r : Except Failure (Except Rejection Outcome)}
    (h : Stopped limits message xs r) : InOrder limits message xs := by
  -- Where no table was found, any table will do for the rest.
  have anyTable : Table := ⟨[], [], [], none⟩
  cases h with
  | notACommand =>
      obtain ⟨full, hFull, -⟩ := exists_smooth limits message [] anyTable
      exact ⟨[], anyTable, full, hFull, beginsAs_nil full⟩
  | withoutShortcuts =>
      obtain ⟨full, hFull, hPrefix⟩ := exists_smooth limits message [] anyTable
      exact ⟨[], anyTable, full, hFull,
        (beginsAs_first _ _ _).of_shorter hPrefix⟩
  | withoutLookup hBody shortcuts | unknownTable hBody shortcuts =>
      obtain ⟨full, hFull, hPrefix⟩ := exists_smooth limits message shortcuts anyTable
      exact ⟨shortcuts, anyTable, full, hFull, beginsAs_lookup.of_shorter hPrefix⟩
  | withoutMode hBody shortcuts table cause hMode =>
      exact ⟨shortcuts, table, _, .modeless cause hMode, beginsAs_lookup⟩
  | withoutCheck hBody shortcuts table accessTable hGuard mode hMode
  | unauthorized hBody shortcuts table accessTable hGuard mode hMode =>
      cases mode with
      | add =>
          exact ⟨shortcuts, table, _, .add hMode [],
            (beginsAs_credential hGuard).of_shorter (List.prefix_append _ _)⟩
      | query =>
          exact ⟨shortcuts, table, _, .query hMode {} [] [] [],
            (beginsAs_credential hGuard).of_shorter (List.prefix_append _ _)⟩

/-- A handling that goes to work on its table goes on in order. -/
theorem Working.inOrder {mode : Command.Mode} {r : Except Failure (Except Rejection Outcome)}
    (hMode : Command.mode (command limits message shortcuts) = .ok mode)
    (h : Working limits now message table (commandArguments (command limits message shortcuts))
      mode ys r) :
    InOrder limits message
      (admission message shortcuts (command limits message shortcuts) table ++ ys) := by
  refine ⟨shortcuts, table, ?_⟩
  cases h with
  | rowRefused => exact ⟨_, .add hMode [], (beginsAs_nil _).append_left _⟩
  | insertFailed values | inserted values =>
      exact ⟨_, .add hMode values, (beginsAs_first _ _ _).append_left _⟩
  | planRefused => exact ⟨_, .query hMode {} [] [] [], (beginsAs_nil _).append_left _⟩
  | selectFailed plan =>
      exact ⟨_, .query hMode (Reply.question plan) (Reply.columns plan) [] [],
        (beginsAs_first _ _ _).append_left _⟩
  | replyRefused plan hPlan found =>
      exact ⟨_, .query hMode (Reply.question plan) (Reply.columns plan) found [],
        (beginsAs_first _ _ _).append_left _⟩
  | sendFailed plan hPlan found body | responded plan hPlan found body =>
      exact ⟨_, .query hMode (Reply.question plan) (Reply.columns plan) found body,
        ((beginsAs_first _ _ _).append_left [_]).append_left _⟩

/-- Every handling makes its requests in order. -/
theorem inOrder_of_follows {r : Except Failure Outcome}
    (h : Follows (handle limits now message) xs r) : InOrder limits message xs := by
  obtain ⟨q, hStages, -⟩ := follows_handle h
  rcases follows_stages hStages with
    hStopped | ⟨shortcuts, table, mode, ys, -, hMode, rfl, hWork⟩
  · exact hStopped.inOrder
  · exact hWork.inOrder hMode

/-! ### What is reported -/

theorem map_outcome_eq {q : Except Failure (Except Rejection Outcome)} {o : Outcome}
    (ho : ∀ cause, o ≠ .notHandled cause) : q.map outcome = .ok o ↔ q = .ok (.ok o) := by
  rcases q with e | cause | o'
  · simp [Except.map]
  · simpa [Except.map, outcome] using (ho cause).symm
  · simp [Except.map, outcome]

theorem Stopped.not_ok {xs : List Exchange} {q : Except Failure (Except Rejection Outcome)}
    (h : Stopped limits message xs q) (o : Outcome) : q ≠ .ok (.ok o) := by
  cases h <;> simp

/-- A handling has an outcome other than a rejection exactly when its work has made an
exchange, if the work has it exactly then. -/
theorem outcome_iff {xs : List Exchange} {r : Except Failure Outcome}
    (h : Follows (handle limits now message) xs r) {o : Outcome}
    (ho : ∀ cause, o ≠ .notHandled cause) {P : Exchange → Prop}
    (hP : ∀ x, P x → ¬ x.request.Prepares)
    (hWork : ∀ {table args mode ys q}, Working limits now message table args mode ys q →
      (q = .ok (.ok o) ↔ ∃ x ∈ ys, P x)) :
    r = .ok o ↔ ∃ x ∈ xs, P x := by
  obtain ⟨q, hStages, rfl⟩ := follows_handle h
  rw [map_outcome_eq ho]
  rcases follows_stages hStages with
    hStopped | ⟨shortcuts, table, mode, ys, -, hMode, rfl, hWorking⟩
  · apply iff_of_false (hStopped.not_ok o)
    rintro ⟨x, hx, hPx⟩
    exact hP x hPx (hStopped.prepares hx)
  · rw [hWork hWorking]
    constructor
    · rintro ⟨x, hx, hPx⟩
      exact ⟨x, List.mem_append_right _ hx, hPx⟩
    · rintro ⟨x, hx, hPx⟩
      rcases List.mem_append.mp hx with hx | hx
      · exact absurd (prepares_of_mem_admission hx) (hP x hPx)
      · exact ⟨x, hx, hPx⟩

theorem inserted_iff {xs : List Exchange} {r : Except Failure Outcome}
    (h : Follows (handle limits now message) xs r) (name : Text) (values : RowValues) :
    r = .ok (.inserted name values) ↔
      ∃ x ∈ xs, ∃ table, name = table.displayName ∧
        x = ⟨.insert table values message.sender, .ok ()⟩ := by
  apply outcome_iff h (by simp)
  · rintro x ⟨table, -, rfl⟩
    exact id
  · intro table args mode ys q hWork
    cases hWork with
    | inserted values' =>
        constructor
        · intro hOutcome
          cases hOutcome
          exact ⟨_, List.mem_singleton_self _, table, rfl, rfl⟩
        · rintro ⟨x, hx, t, rfl, rfl⟩
          cases List.mem_singleton.mp hx
          rfl
    | rowRefused | insertFailed | planRefused | selectFailed | replyRefused | sendFailed |
        responded => simp

theorem responded_iff_sent {xs : List Exchange} {r : Except Failure Outcome}
    (h : Follows (handle limits now message) xs r) (body : Text) :
    r = .ok (.responded body) ↔
      ∃ x ∈ xs, x = ⟨.send message.sender body, .ok ()⟩ := by
  apply outcome_iff h (by simp)
  · rintro x rfl
    exact id
  · intro table args mode ys q hWork
    cases hWork with
    | responded plan hPlan found body' => simp [eq_comm]
    | rowRefused | insertFailed | inserted | planRefused | selectFailed | replyRefused |
        sendFailed => simp

theorem forSender_of_mem_lookup {command : Text} {found : Except Failure (Option Table)}
    {x : Exchange} (hx : x ∈ lookup shortcuts command found) :
    x.request.ForSender message.sender := by
  simp only [lookup, List.mem_cons, List.not_mem_nil, or_false] at hx
  rcases hx with rfl | rfl <;> exact trivial

theorem forSender_of_mem_admission {command : Text} {x : Exchange}
    (hx : x ∈ admission message shortcuts command table) :
    x.request.ForSender message.sender := by
  rcases List.mem_append.mp hx with hx | hx
  · exact forSender_of_mem_lookup hx
  · rw [Option.mem_toList, Option.map_eq_some_iff] at hx
    obtain ⟨accessTable, -, rfl⟩ := hx
    exact rfl

theorem Smooth.forSender (h : Smooth limits message shortcuts table full) {x : Exchange}
    (hx : x ∈ full) : x.request.ForSender message.sender := by
  cases h with
  | modeless => exact forSender_of_mem_lookup hx
  | add =>
      rcases List.mem_append.mp hx with hx | hx
      · exact forSender_of_mem_admission hx
      · rw [List.mem_singleton.mp hx]
        exact rfl
  | query =>
      rcases List.mem_append.mp hx with hx | hx
      · exact forSender_of_mem_admission hx
      · simp only [List.mem_cons, List.not_mem_nil, or_false] at hx
        rcases hx with rfl | rfl
        · exact trivial
        · exact rfl

theorem InOrder.forSender (h : InOrder limits message xs) {x : Exchange} (hx : x ∈ xs) :
    x.request.ForSender message.sender := by
  obtain ⟨shortcuts, table, full, hFull, hBegins⟩ := h
  obtain ⟨y, hy, hRequest⟩ :=
    List.mem_map.mp (hBegins.requests.subset (List.mem_map_of_mem hx))
  rw [← hRequest]
  exact hFull.forSender hy

/-- What can be said of the conversation and the result of a handling on any host. -/
structure Protocol (limits : Limits) (message : Message) (xs : List Exchange)
    (r : Except Failure Outcome) : Prop where
  inOrder : InOrder limits message xs
  forSender : ∀ x ∈ xs, x.request.ForSender message.sender
  /-- A failure is the last exchange and the result. -/
  of_failed : ∀ before x after e, xs = before ++ x :: after → x.answer = .error e →
    after = [] ∧ r = .error e
  /-- The result is a failure only if an exchange is. -/
  exists_failed : ∀ e, r = .error e → ∃ before x, xs = before ++ [x] ∧ x.answer = .error e
  inserted : ∀ name values, r = .ok (.inserted name values) ↔
    ∃ x ∈ xs, ∃ table, name = table.displayName ∧
      x = ⟨.insert table values message.sender, .ok ()⟩
  responded : ∀ body, r = .ok (.responded body) ↔
    ∃ x ∈ xs, x = ⟨.send message.sender body, .ok ()⟩

/-- **Every handling keeps to the protocol.**  On every host, for every message, the
requests of the run are those of its exchanges, the host has given the answers in them, and
the exchanges and the result are as the protocol has it: requests in order and each at most
once, a failure last and handed on, an insert or a reply reported exactly when made. -/
theorem protocol_of_run {σ : Type} (limits : Limits) (now : Instant) (message : Message)
    (host : Host σ) (s : σ) :
    ((handle limits now message).run host s).requests =
        ((handle limits now message).exchanges host s).map Exchange.request ∧
      host.Gives ((handle limits now message).exchanges host s) s
        ((handle limits now message).run host s).state ∧
      Protocol limits message ((handle limits now message).exchanges host s)
        ((handle limits now message).run host s).result := by
  have hPath := Program.follows_run host (handle limits now message) s
  have hOrder := inOrder_of_follows hPath
  refine ⟨Program.requests_run host _ s, Program.gives_exchanges host _ s, ?_⟩
  exact
    { inOrder := hOrder
      forSender := fun x hx => hOrder.forSender hx
      of_failed := fun before x after e hxs hx => hPath.of_failed hxs hx
      exists_failed := fun e hr => hPath.exists_failed hr
      inserted := inserted_iff hPath
      responded := responded_iff_sent hPath }

end Handling

end TableTalk
