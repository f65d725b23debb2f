import TableTalk.Proofs.Message.Course
import TableTalk.Proofs.Slot.NothingTold

/-!
# Replies that are empty

A query for rows is never answered with an empty text: a plan without a question for free
windows prints at least one column (`Plan.projection_ne_nil`), every cell has a colon, and
there is a text of its own for no rows.

A question for free windows has a text of its own for time without any occupied span, but
none for time without any free window.  Where a `>` and a `<` of the sender leave no gap that
is long enough, the reply is sent with no text in it.  `Handling.sent_empty_iff` says that
this is the only way, on every host and for every message.
-/

namespace TableTalk

/-! ### Rows -/

namespace Reply

variable {columns : List Column} {found : List Row} {limit : Nat}

theorem cell_ne_nil (column : Column) (value : Text) : cell column value ≠ [] :=
  List.append_ne_nil_of_right_ne_nil _ (List.cons_ne_nil _ _)

/-- A row with a cell is printed as some text, if a column is printed. -/
theorem row_ne_nil {values : Row} (hColumns : columns ≠ []) (hValues : values ≠ []) :
    row columns values ≠ [] := by
  obtain ⟨column, columns, rfl⟩ := List.exists_cons_of_ne_nil hColumns
  obtain ⟨value, values, rfl⟩ := List.exists_cons_of_ne_nil hValues
  rw [row, List.zipWith_cons_cons, Text.join_cons]
  exact List.append_ne_nil_of_left_ne_nil (cell_ne_nil column value) _

/-- The rows of an answer are printed as some text. -/
theorem rows_ne_nil (hColumns : columns ≠ []) (hLimit : 1 ≤ limit) (hFound : [] ∉ found) :
    rows columns found limit ≠ [] := by
  unfold rows
  split
  · exact List.cons_ne_nil _ _
  · rename_i hSome
    have hRows : [] ∉ (found.take limit).map (row columns) := by
      intro hNil
      obtain ⟨values, hValues, hRow⟩ := List.mem_map.mp hNil
      have hCells : values ≠ [] := fun h => hFound (h ▸ List.mem_of_mem_take hValues)
      exact row_ne_nil hColumns hCells hRow
    rw [Ne, Text.join_eq_nil_iff hRows, List.map_eq_nil_iff, List.take_eq_nil_iff, not_or]
    exact ⟨Nat.ne_of_gt hLimit, mt List.isEmpty_iff.mpr hSome⟩

end Reply

/-- A plan that asks for no windows prints a column. -/
theorem Plan.projection_ne_nil {now : Instant} {table : Table} {args : Text} {plan : Plan}
    (hPlan : compile now table args = .ok plan) (hSlot : plan.slot = none) :
    plan.projection ≠ [] := by
  unfold compile at hPlan
  split at hPlan
  · cases hPlan
  · split at hPlan
    · rename_i hAsks
      obtain rfl := Except.ok.inj hPlan
      intro hNone
      simp [asksSomething, hNone, hSlot] at hAsks
    · cases hPlan

/-- The answer to a plan is empty exactly if it is about free windows and none is left to
tell. -/
theorem Reply.answer_eq_nil_iff {now : Instant} {table : Table} {args : Text} {plan : Plan}
    {found : List Row} {limit : Nat} (hPlan : Plan.compile now table args = .ok plan)
    (hLimit : 1 ≤ limit) (hFound : [] ∉ found) :
    answer limit plan found = .ok [] ↔
      ∃ slot, plan.slot = some slot ∧
        FreeWindows.NothingTold (slot.seconds * nanosPerSecond) (found.filterMap List.head?)
          (plan.query.constraintsOn slot.column.storageName) := by
  unfold answer
  cases hSlot : plan.slot with
  | none =>
      have hRows := rows_ne_nil (Plan.projection_ne_nil hPlan hSlot) hLimit hFound
      simp [hRows]
  | some slot =>
      simp only [FreeWindows.reply, FreeWindows.ofCells_eq_nil_iff, Option.some.injEq,
        exists_eq_left']

namespace Handling

open Program (Follows)

variable {limits : Limits} {now : Instant} {message : Message}

/-- What is sent is the answer to a plan, made of the rows of one select after the admission. -/
theorem answer_of_send {xs : List Exchange} {r : Except Failure Outcome}
    (h : Follows (handle limits now message) xs r) {x : Exchange} (hx : x ∈ xs)
    {phone body : Text} (hSend : x.request = .send phone body) :
    ∃ shortcuts table plan found,
      admission message shortcuts (command limits message shortcuts) table ++
        [⟨.select table (Reply.question plan) (Reply.columns plan), .ok found⟩] <+: xs ∧
      Plan.compile now table (commandArguments (command limits message shortcuts)) = .ok plan ∧
      Reply.answer limits.replyRows plan found = .ok body := by
  have hNot : ¬ x.request.Prepares := by
    rw [hSend]
    exact id
  obtain ⟨shortcuts, table, mode, ys, q, -, rfl, hx, hWork⟩ := working_of_not_prepares h hx hNot
  cases hWork with
  | rowRefused | planRefused => exact absurd hx List.not_mem_nil
  | insertFailed | inserted | selectFailed | replyRefused =>
      rw [List.mem_singleton.mp hx] at hSend
      exact Request.noConfusion hSend
  | sendFailed plan hPlan found body' hReply e =>
      rcases List.mem_pair.mp hx with rfl | rfl
      · exact Request.noConfusion hSend
      · obtain ⟨-, rfl⟩ := Request.send.inj hSend
        exact ⟨shortcuts, table, plan, found, by simp, hPlan, hReply⟩
  | responded plan hPlan found body' hReply =>
      rcases List.mem_pair.mp hx with rfl | rfl
      · exact Request.noConfusion hSend
      · obtain ⟨-, rfl⟩ := Request.send.inj hSend
        exact ⟨shortcuts, table, plan, found, by simp, hPlan, hReply⟩

/-- **An empty reply tells no window.**  On every host and for every message, with room for a
row in a reply and a cell in every row that is found: what is sent is the answer to a plan,
and its text is empty exactly if the plan asks for free windows, its column has both a single
`>` and a single `<` on it, and every gap that they and the stored spans leave is shorter
than asked for. -/
theorem sent_empty_iff {σ : Type} (limits : Limits) (now : Instant) (message : Message)
    (host : Host σ) (s : σ) {phone body : Text} (hLimit : 1 ≤ limits.replyRows)
    (hCells : ∀ table query columns found,
      (⟨.select table query columns, .ok found⟩ : Exchange) ∈
        (handle limits now message).exchanges host s → [] ∉ found)
    (hSent : .send phone body ∈ ((handle limits now message).run host s).requests) :
    ∃ shortcuts table plan found,
      admission message shortcuts (command limits message shortcuts) table ++
          [⟨.select table (Reply.question plan) (Reply.columns plan), .ok found⟩] <+:
        (handle limits now message).exchanges host s ∧
      Plan.compile now table (commandArguments (command limits message shortcuts)) = .ok plan ∧
      (body = [] ↔ ∃ slot, plan.slot = some slot ∧
        FreeWindows.NothingTold (slot.seconds * nanosPerSecond) (found.filterMap List.head?)
          (plan.query.constraintsOn slot.column.storageName)) := by
  rw [Program.requests_run, List.mem_map] at hSent
  obtain ⟨x, hx, hRequest⟩ := hSent
  obtain ⟨shortcuts, table, plan, found, hCourse, hPlan, hReply⟩ :=
    answer_of_send (Program.follows_run host _ s) hx hRequest
  have hFound : [] ∉ found :=
    hCells _ _ _ _ (hCourse.subset (List.mem_append_right _ (List.mem_singleton_self _)))
  refine ⟨shortcuts, table, plan, found, hCourse, hPlan, ?_⟩
  rw [← Reply.answer_eq_nil_iff hPlan hLimit hFound, hReply, Except.ok.injEq]

/-- An open table of the spans when a house is let. -/
def mayHouse : Table :=
  ⟨"house".toList, "house".toList,
    [{ storageName := ['l'], displayName := ['L'], type := .dateRange }], none⟩

/-- The first of May. -/
def mayNow : Instant :=
  .midnight ⟨2025, 5, 1, by decide⟩

/-- The second and the third of May. -/
def mayRows : List Row :=
  [["2025-05-02T00:00/2025-05-04T00:00".toList]]

/-- A question for free days from the first of May on. -/
def fromMay : Message :=
  ⟨['7'], "@house /L 1d >L 2025-05-01 00:00:00".toList⟩

/-- A question for free days from the second of May on and before the first. -/
def neverInMay : Message :=
  ⟨['7'], "@house /L 1d >L 2025-05-02 00:00:00 <L 2025-05-01".toList⟩

theorem sent_fromMay :
    .send ['7'] "2025-05-01T00:00-2025-05-02T00:00;after 2025-05-04T00:00".toList ∈
      ((handle {} mayNow fromMay).run (Host.ofTable mayHouse false mayRows) ()).requests := by
  decide +kernel

theorem sent_neverInMay :
    .send ['7'] [] ∈
      ((handle {} mayNow neverInMay).run (Host.ofTable mayHouse false []) ()).requests := by
  decide +kernel

/-- A host of one table finds no row without a cell, if its table has none. -/
theorem cells_of_ofTable {α : Type} {table t : Table} {granted : Bool} {rows found : List Row}
    {p : Program α} {query : Query} {columns : List Text} (hRows : [] ∉ rows)
    (hx : (⟨.select t query columns, .ok found⟩ : Exchange) ∈
      p.exchanges (Host.ofTable table granted rows) ()) : [] ∉ found := by
  obtain ⟨s, hAnswer⟩ := (Program.gives_exchanges _ p ()).exists_of_mem hx
  obtain rfl := Except.ok.inj hAnswer
  split
  · exact hRows
  · exact List.not_mem_nil

/-- A day and an open end are left, and told. -/
theorem sent_empty_iff_fromMay :
    ∃ shortcuts table plan found,
      admission fromMay shortcuts (command {} fromMay shortcuts) table ++
          [⟨.select table (Reply.question plan) (Reply.columns plan), .ok found⟩] <+:
        (handle {} mayNow fromMay).exchanges (Host.ofTable mayHouse false mayRows) () ∧
      Plan.compile mayNow table (commandArguments (command {} fromMay shortcuts)) = .ok plan ∧
      ("2025-05-01T00:00-2025-05-02T00:00;after 2025-05-04T00:00".toList = [] ↔
        ∃ slot, plan.slot = some slot ∧
          FreeWindows.NothingTold (slot.seconds * nanosPerSecond) (found.filterMap List.head?)
            (plan.query.constraintsOn slot.column.storageName)) :=
  sent_empty_iff {} mayNow fromMay (Host.ofTable mayHouse false mayRows) () (by decide)
    (fun _ _ _ _ hx => cells_of_ofTable (by decide) hx) sent_fromMay

/-- Not every reply that is sent has some text. -/
theorem not_always_nonempty :
    ¬ ∀ (limits : Limits) (now : Instant) (message : Message) (host : Host Unit)
      (phone body : Text), 1 ≤ limits.replyRows →
      (∀ table query columns found,
        (⟨.select table query columns, .ok found⟩ : Exchange) ∈
          (handle limits now message).exchanges host () → [] ∉ found) →
      .send phone body ∈ ((handle limits now message).run host ()).requests → body ≠ [] := by
  intro hAlways
  exact hAlways {} mayNow neverInMay (Host.ofTable mayHouse false []) ['7'] [] (by decide)
    (fun _ _ _ _ hx => cells_of_ofTable List.not_mem_nil hx) sent_neverInMay rfl

end Handling

end TableTalk
