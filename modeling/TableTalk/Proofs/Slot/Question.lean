import TableTalk.Proofs.Slot.CellOrder

/-!
# What a query for windows asks of the rows

A query for windows mixes filters on its span column with filters on others, in any
order and around orderings that are of no use to it.  The filters on the span column bound
the time that is asked about and may not choose among the rows: a row that they left out
would be taken for free time.

`Slot.windows_asked_once` follows the constraints from the segments of the message to the
two places where they end up.  The plan has the constraints of the segments one after
another (`Plan.constraints_of_compile`), each on the column of its segment
(`Filter.column_of_constraints`), so the division by columns is one by segments and neither
side loses, repeats or moves a constraint.
-/

namespace TableTalk

/-- A filter constrains the column it names. -/
theorem Filter.column_of_constraints {now : Instant} {column : Column} {op : FilterOp}
    {value : Text} {cs : List Constraint} (h : constraints now column op value = .ok cs) :
    ∀ c ∈ cs, c.column = column.storageName := by
  unfold constraints at h
  split at h
  · split at h
    · rename_i i _
      obtain rfl := Except.ok.inj h
      cases op <;> grind [ofInterval, Constraint.single, Constraint.either]
    · split at h
      · grind [ofInstant, Constraint.single]
      · cases h
  · split at h
    · grind [Constraint.single]
    · cases h

namespace Segment

variable {now : Instant} {table : Table} {s : Segment}

/-- A segment constrains the column that its label names. -/
theorem column_of_constraints {c : Constraint} (hc : c ∈ s.constraints now table) :
    ∃ column, table.columnByLabel s.label = some column ∧ c.column = column.storageName := by
  unfold constraints at hc
  split at hc
  · rename_i op column value hMarker hColumn hValue
    split at hc
    · rename_i cs hFilter
      exact ⟨column, hColumn, Filter.column_of_constraints hFilter c hc⟩
    · cases hc
  · cases hc

end Segment

/-- A program of one request makes its result of the answer. -/
theorem Program.run_ask_done {σ α : Type} (host : Host σ) (request : Request)
    (f : request.Answer → α) (s : σ) :
    (ask request fun answer => done (f answer)).run host s =
      ⟨(host request s).1.map f, [request], (host request s).2⟩ := by
  cases hAnswer : (host request s).1 with
  | error e => exact run_ask_of_error hAnswer
  | ok answer => exact run_ask_of_ok hAnswer

/-- A plan has the constraints of its segments one after another. -/
theorem Plan.constraints_of_compile {now : Instant} {table : Table} {args : Text} {plan : Plan}
    (h : compile now table args = .ok plan) :
    plan.query.constraints = (Segment.split args).flatMap (Segment.constraints now table) := by
  obtain ⟨-, -, rfl⟩ := compile_eq_ok_iff.mp h
  rfl

namespace Slot

/-- A choice among results that depends on where they come from chooses among the origins. -/
theorem filter_flatMap_of_forall {α β : Type} {f : α → List β} {p : α → Bool} {q : β → Bool}
    {xs : List α} (h : ∀ x ∈ xs, ∀ y ∈ f x, q y = p x) :
    (xs.flatMap f).filter q = (xs.filter p).flatMap f := by
  induction xs with
  | nil => rfl
  | cons x xs ih =>
      have hHead : (f x).filter q = if p x then f x else [] := by
        split
        · rename_i hx
          exact List.filter_eq_self.mpr fun y hy => (h x List.mem_cons_self y hy).trans hx
        · rename_i hx
          exact List.filter_eq_nil_iff.mpr fun y hy => by
            rw [h x List.mem_cons_self y hy]
            exact hx
      rw [List.flatMap_cons, List.filter_append, hHead,
        ih fun z hz => h z (List.mem_cons_of_mem _ hz), List.filter_cons]
      split
      · rw [List.flatMap_cons]
      · rw [List.nil_append]

variable {now : Instant} {table : Table} {c : Column}

/-- Where names are distinct, a constraint is on a column exactly if its segment is. -/
theorem column_iff_of_constraints (hDistinct : (table.columns.map Column.storageName).Nodup)
    (hc : c ∈ table.columns) {s : Segment} {x : Constraint}
    (hx : x ∈ s.constraints now table) :
    x.column = c.storageName ↔ table.columnByLabel s.label = some c := by
  obtain ⟨column, hColumn, hName⟩ := Segment.column_of_constraints hx
  have hMem : column ∈ table.columns := List.mem_of_find?_eq_some hColumn
  rw [hName, hColumn, Option.some.injEq]
  exact ⟨List.inj_on_of_nodup_map hDistinct hMem hc, congrArg Column.storageName⟩

/-- **Windows are asked for once, and no constraint is lost.**  Take query arguments whose
plan asks for free windows, on a table of distinct storage names.  On every host the plan
makes one request, a select of the span column alone.  Its query has no constraint on that
column; its constraints are those of the plan on other columns, in their order, which are
those of the segments on other columns; and it orders by the span column, smallest first,
whatever orderings the arguments name.  The reply is made of the cells found and of the
plan's constraints on the span column, in their order, which are those of the segments on
it; a failure of the select is the only other end. -/
theorem windows_asked_once {σ : Type} (host : Host σ) (s : σ) (limit : Nat) {args : Text}
    {plan : Plan} {slot : SlotRequest}
    (hDistinct : (table.columns.map Column.storageName).Nodup)
    (hPlan : Plan.compile now table args = .ok plan) (hSlot : plan.slot = some slot) :
    ∃ (query : Query) (folded : List Constraint),
      ((Reply.toPlan limit table plan).run host s).requests =
          [.select table query [slot.column.storageName]] ∧
        ((Reply.toPlan limit table plan).run host s).result =
          ((host (.select table query [slot.column.storageName]) s).1.map
            fun (found : List Row) =>
              FreeWindows.reply slot.seconds (found.filterMap List.head?) folded) ∧
        query.orderBy = some ⟨slot.column.storageName, .ascending⟩ ∧
        (∀ c ∈ query.constraints, c.column ≠ slot.column.storageName) ∧
        query.constraints =
          plan.query.constraints.filter (fun c => c.column ≠ slot.column.storageName) ∧
        folded = plan.query.constraints.filter (fun c => c.column = slot.column.storageName) ∧
        query.constraints =
          ((Segment.split args).filter fun s =>
            table.columnByLabel s.label ≠ some slot.column).flatMap
              (Segment.constraints now table) ∧
        folded =
          ((Segment.split args).filter fun s =>
            table.columnByLabel s.label = some slot.column).flatMap
              (Segment.constraints now table) := by
  have hColumn : slot.column ∈ table.columns := (slotFits_of_compile hPlan slot hSlot).1
  let query := (plan.query.withoutConstraintsOn slot.column.storageName).setOrderBy
    slot.column.storageName .ascending
  have hOthers : query.constraints =
      plan.query.constraints.filter (fun c => c.column ≠ slot.column.storageName) :=
    List.filter_congr fun c _ => by rw [Bool.eq_iff_iff, bne_iff_ne, decide_eq_true_iff]
  have hLifted : plan.query.constraintsOn slot.column.storageName =
      plan.query.constraints.filter (fun c => c.column = slot.column.storageName) :=
    List.filter_congr fun c _ => by rw [Bool.eq_iff_iff, beq_iff_eq, decide_eq_true_iff]
  have hReply : Reply.toPlan limit table plan =
      .ask (.select table query [slot.column.storageName]) fun (found : List Row) =>
        .done (FreeWindows.reply slot.seconds (found.filterMap List.head?)
          (plan.query.constraintsOn slot.column.storageName)) := by
    unfold Reply.toPlan
    rw [hSlot]
    rfl
  refine ⟨query, plan.query.constraintsOn slot.column.storageName, ?_, ?_, rfl, ?_, hOthers,
    hLifted, ?_, ?_⟩
  · rw [hReply, Program.run_ask_done]
  · rw [hReply, Program.run_ask_done]
  · intro c hc
    rw [hOthers, List.mem_filter] at hc
    exact of_decide_eq_true hc.2
  -- A division of the constraints by their column is one of the segments by theirs.
  · rw [hOthers, Plan.constraints_of_compile hPlan]
    exact filter_flatMap_of_forall fun s _ c hc => by
      simp [column_iff_of_constraints hDistinct hColumn hc]
  · rw [hLifted, Plan.constraints_of_compile hPlan]
    exact filter_flatMap_of_forall fun s _ c hc => by
      simp [column_iff_of_constraints hDistinct hColumn hc]

/-- A barn with its name, a date and the spans when it is let. -/
def barn : Table :=
  ⟨"barn".toList, "barn".toList,
    [{ storageName := ['n'], displayName := ['N'], type := .text },
      { storageName := ['d'], displayName := ['D'], type := .date },
      { storageName := ['l'], displayName := ['L'], type := .dateRange }], none⟩

/-- Filters on three columns in turns, and an ordering on either side of the question. -/
def barnArgs : Text :=
  " ~N d =N Elm <L 2024-12-20 =D 2024-12-2 /L 1d >L 2024-12-1 !D 2024-12-5 ~D".toList

/-- What the arguments compile to. -/
def barnPlan : Plan where
  query :=
    { constraints :=
        [.single ['n'] .equals "Elm".toList,
          .single ['l'] .lessThan "2024-12-20T00:00".toList,
          .single ['d'] .greaterThanEquals "2024-12-02T00:00".toList,
          .single ['d'] .lessThan "2024-12-03T00:00".toList,
          .single ['l'] .greaterThanEquals "2024-12-02T00:00".toList,
          .either ['d'] ⟨.lessThan, "2024-12-05T00:00".toList⟩
            ⟨.greaterThanEquals, "2024-12-06T00:00".toList⟩]
      orderBy := some ⟨['d'], .ascending⟩ }
  slot := some ⟨{ storageName := ['l'], displayName := ['L'], type := .dateRange }, 86400⟩

/-- The filters on the spans are lifted out from between the others, and the ordering by the
last segment gives way to that by spans. -/
theorem windows_asked_once_barn :
    ∃ (query : Query) (folded : List Constraint),
      ((Reply.toPlan 25 barn barnPlan).run (Host.ofTable barn false []) ()).requests =
          [.select barn query [['l']]] ∧
        ((Reply.toPlan 25 barn barnPlan).run (Host.ofTable barn false []) ()).result =
          .ok (FreeWindows.reply 86400 [] folded) ∧
        query.orderBy = some ⟨['l'], .ascending⟩ ∧
        query.constraints =
          [.single ['n'] .equals "Elm".toList,
            .single ['d'] .greaterThanEquals "2024-12-02T00:00".toList,
            .single ['d'] .lessThan "2024-12-03T00:00".toList,
            .either ['d'] ⟨.lessThan, "2024-12-05T00:00".toList⟩
              ⟨.greaterThanEquals, "2024-12-06T00:00".toList⟩] ∧
        folded =
          [.single ['l'] .lessThan "2024-12-20T00:00".toList,
            .single ['l'] .greaterThanEquals "2024-12-02T00:00".toList] := by
  have hPlan : Plan.compile septemberNow barn barnArgs = .ok barnPlan := by decide +kernel
  obtain ⟨query, folded, hRequests, hResult, hOrder, -, hOthers, hLifted, -, -⟩ :=
    windows_asked_once (Host.ofTable barn false []) () 25 (by decide) hPlan rfl
  refine ⟨query, folded, hRequests, ?_, hOrder, hOthers.trans (by decide),
    hLifted.trans (by decide)⟩
  simpa [Host.ofTable, Except.map] using hResult

end Slot

end TableTalk
