import TableTalk.Proofs.Query.Found
import TableTalk.Proofs.Store.Operations
import TableTalk.Proofs.Store.Selection
import TableTalk.Proofs.Time.Canonical

/-!
# Free windows of stored rows

A question for the free windows of a span column is put to the rows that messages have
added.  Whatever an add stores in that column can be read as a span again
(`Slot.exists_ofStored`), so that rows with a value never stand in the way.

A row without a value does.  An add may leave any column out, and a column that messages
may not write is always left out; the cell is then given as the empty text, which is no
span, and the question is refused for a stored value that was never stored
(`Slot.result_of_missing`).  `Slot.responded_iff` puts the two together: after any
operations the question is answered if and only if every row that was added has a value.
-/

namespace TableTalk

/-- A plan for windows without conditions selects its column alone, in ascending order, and
answers with the windows between the cells. -/
theorem Reply.parts_of_slot (limit : Nat) {plan : Plan} {slot : SlotRequest}
    (hSlot : plan.slot = some slot) (hConstraints : plan.query.constraints = []) :
    question plan = { orderBy := some ⟨slot.column.storageName, .ascending⟩ } ∧
      columns plan = [slot.column.storageName] ∧
      ∀ found, answer limit plan found =
        FreeWindows.reply slot.seconds (found.filterMap List.head?) [] := by
  unfold question columns answer
  rw [hSlot]
  refine ⟨?_, rfl, fun found => ?_⟩
  · simp [Query.withoutConstraintsOn, Query.setOrderBy, hConstraints]
  · simp [Query.constraintsOn, hConstraints]

namespace Slot

variable {now : Instant} {t : Table} {c : Column} {seconds : Nat}

/-! ### The question -/

/-- The segment orders or prints a column of the table. -/
def IsQuiet (t : Table) (s : Segment) : Prop :=
  (s.marker = .project ∨ s.marker = .order) ∧ (t.columnByLabel s.label).isSome = true

/-- The segments ask for the free windows of a column, once and without filters. -/
def AsksOnce (t : Table) (c : Column) (seconds : Nat) (segments : List Segment) : Prop :=
  ∃ before slot after value, segments = before ++ slot :: after ∧
    (∀ s ∈ before ++ after, IsQuiet t s) ∧ slot.marker = .slot ∧
    t.columnByLabel slot.label = some c ∧ slot.value = some value ∧
    Duration.read value = some seconds

/-- The command asks a table for the free windows of one of its columns. -/
structure Asks (t : Table) (c : Column) (command : Text) : Prop where
  target : Command.targetName command = t.displayName
  mode : Command.mode command = .ok .query
  segments : ∃ seconds, AsksOnce t c seconds (Segment.split (Handling.commandArguments command))

/-- The column that is asked about is one of the table. -/
theorem Asks.mem {command : Text} (h : Asks t c command) : c ∈ t.columns := by
  obtain ⟨_, _, _, _, _, -, -, -, hLabel, -⟩ := h.segments
  exact List.mem_of_find?_eq_some hLabel

/-- A quiet segment changes neither conditions nor the request for windows. -/
theorem take_of_isQuiet (now : Instant) (p : Plan) {s : Segment} (h : IsQuiet t s) :
    ∃ p', Plan.take now t p s = .ok p' ∧ p'.query.constraints = p.query.constraints ∧
      p'.slot = p.slot := by
  obtain ⟨hMarker, hLabel⟩ := h
  obtain ⟨d, hd⟩ := Option.isSome_iff_exists.mp hLabel
  unfold Plan.take Plan.takeOn
  rw [hd]
  rcases hMarker with hMarker | hMarker
  · rw [hMarker]
    exact ⟨_, rfl, rfl, rfl⟩
  · rw [hMarker]
    exact ⟨_, rfl, rfl, rfl⟩

theorem foldlM_of_isQuiet (now : Instant) (p : Plan) {segments : List Segment}
    (h : ∀ s ∈ segments, IsQuiet t s) :
    ∃ p', segments.foldlM (Plan.take now t) p = .ok p' ∧
      p'.query.constraints = p.query.constraints ∧ p'.slot = p.slot := by
  induction segments generalizing p with
  | nil => exact ⟨p, rfl, rfl, rfl⟩
  | cons s segments ih =>
      obtain ⟨p', hTake, hConstraints, hSlot⟩ := take_of_isQuiet now p (h s List.mem_cons_self)
      obtain ⟨q, hRest, hConstraints', hSlot'⟩ :=
        ih p' fun x hx => h x (List.mem_cons_of_mem _ hx)
      exact ⟨q, Traversal.foldlM_cons_ok.mpr ⟨p', hTake, hRest⟩,
        hConstraints'.trans hConstraints, hSlot'.trans hSlot⟩

/-- The segment with the duration makes the request for windows. -/
theorem take_slot (now : Instant) {p : Plan} {s : Segment} {value : Text}
    (hType : c.type = .dateRange) (hMarker : s.marker = .slot)
    (hLabel : t.columnByLabel s.label = some c) (hValue : s.value = some value)
    (hRead : Duration.read value = some seconds) (hFirst : p.slot = none) :
    Plan.take now t p s = .ok { p with slot := some ⟨c, seconds⟩ } := by
  unfold Plan.take Plan.takeOn Plan.slotRequest Plan.requiredValue
  simp only [hLabel, hMarker, hFirst, hType, hValue, hRead]
  rfl

/-- Such a question always has a plan, for the windows and without conditions. -/
theorem exists_plan (now : Instant) {args : Text} (hType : c.type = .dateRange)
    (h : AsksOnce t c seconds (Segment.split args)) :
    ∃ plan, Plan.compile now t args = .ok plan ∧ plan.query.constraints = [] ∧
      plan.slot = some ⟨c, seconds⟩ := by
  obtain ⟨before, slot, after, value, hSegments, hQuiet, hMarker, hLabel, hValue, hRead⟩ := h
  obtain ⟨p, hBefore, hConstraints, hNone⟩ := foldlM_of_isQuiet now {}
    fun s hs => hQuiet s (List.mem_append_left _ hs)
  have hSlot := take_slot now hType hMarker hLabel hValue hRead hNone
  obtain ⟨q, hAfter, hConstraints', hSome⟩ := foldlM_of_isQuiet now
    { p with slot := some ⟨c, seconds⟩ } fun s hs => hQuiet s (List.mem_append_right _ hs)
  have hAll : (Segment.split args).foldlM (Plan.take now t) {} = .ok q := by
    rw [hSegments, List.foldlM_append, hBefore]
    exact Traversal.foldlM_cons_ok.mpr ⟨_, hSlot, hAfter⟩
  have hAsks : q.asksSomething = true := by
    unfold Plan.asksSomething
    rw [hSome]
    simp
  refine ⟨q, ?_, hConstraints'.trans hConstraints, hSome⟩
  unfold Plan.compile
  simp only [hAll, hAsks, if_true]

/-! ### The cells -/

/-- What an add has stored in a span column is a span. -/
theorem exists_ofStored (ht : t.IsDefinable) (hc : c ∈ t.columns) (hType : c.type = .dateRange)
    {r : StoredRow} (hr : r.OfAdd t) {value : Text} (hValue : r.value? c.storageName = some value) :
    ∃ o, Occupied.ofStored value = .ok o := by
  obtain ⟨now, stamp, sender, values, hBuilt, rfl⟩ := hr
  have hMem : (c.storageName, value) ∈ values := by
    obtain ⟨before, after, hSplit, -⟩ := List.lookup_eq_some_iff.mp hValue
    change values = before ++ (c.storageName, value) :: after at hSplit
    rw [hSplit]
    exact List.mem_append_right _ List.mem_cons_self
  obtain ⟨d, hd, hName, -, input, hNormal⟩ := hBuilt.ofColumn _ hMem
  -- The value was made for a column of this name, and no other column has it.
  have hSame : d = c := by
    refine ht.eq_of_sameLetters hd hc ?_
    rw [hName]
    exact Text.sameLetters_self _
  rw [hSame] at hNormal
  have hStored := Value.stored?_of_normalize hNormal
  unfold Value.stored? at hStored
  rw [hType] at hStored
  obtain ⟨i, hTyped, rfl⟩ := Option.map_eq_some_iff.mp hStored
  exact ⟨_, Occupied.ofStored_of_ofTyped? hTyped⟩

/-- The empty text is no span. -/
theorem ofStored_nil : Occupied.ofStored [] = .error (.corruptRange []) := rfl

/-- Cells that can be read have free windows. -/
theorem exists_reply {cells : List Text}
    (hReadable : ∀ x ∈ cells, ∃ o, Occupied.ofStored x = .ok o) (minSeconds : Int) :
    ∃ body, FreeWindows.reply minSeconds cells [] = .ok body := by
  unfold FreeWindows.reply FreeWindows.ofCells
  cases hSpans : cells.mapM Occupied.ofStored with
  | ok spans => exact ⟨_, rfl⟩
  | error e =>
      obtain ⟨x, hx, hRefused⟩ := Traversal.exists_of_mapM_error hSpans
      obtain ⟨o, hRead⟩ := hReadable x hx
      rw [hRead] at hRefused
      cases hRefused

/-- If the only cells that cannot be read are empty, they are what a refusal names. -/
theorem reply_of_empty {cells : List Text}
    (hReadable : ∀ x ∈ cells, x ≠ [] → ∃ o, Occupied.ofStored x = .ok o)
    (hEmpty : [] ∈ cells) (minSeconds : Int) :
    FreeWindows.reply minSeconds cells [] = .error (.corruptRange []) := by
  unfold FreeWindows.reply FreeWindows.ofCells
  cases hSpans : cells.mapM Occupied.ofStored with
  | ok spans =>
      obtain ⟨o, hRead⟩ := Traversal.exists_of_mapM_ok hSpans hEmpty
      rw [ofStored_nil] at hRead
      cases hRead
  | error e =>
      obtain ⟨x, hx, hRefused⟩ := Traversal.exists_of_mapM_error hSpans
      by_cases hNil : x = []
      · rw [hNil, ofStored_nil] at hRefused
        rw [← Except.error.inj hRefused]
      · obtain ⟨o, hRead⟩ := hReadable x hx hNil
        rw [hRead] at hRefused
        cases hRefused

/-! ### The answer -/

section Answer

variable {db : Database} {rows : List StoredRow} {limits : Limits} {stamp : Instant}
variable {message : Message}
variable (ht : t.IsDefinable) (hOpen : t.accessTable = none) (hType : c.type = .dateRange)
variable (hDb : db.Registers (.ofTable t rows)) (hRows : ∀ r ∈ rows, r.OfAdd t)
variable (hBody : Command.isCommand message.body = true)
variable (hAsks : Asks t c (Handling.command limits message db.shortcuts))
include ht hOpen hType hDb hRows hBody hAsks

/-- The question comes down to the cells of the column, one for each row. -/
theorem exists_cells :
    ∃ (seconds : Nat) (cells : List Text),
      (∀ x, x ∈ cells ↔ ∃ r ∈ rows, (r.value? c.storageName).getD [] = x) ∧
      (db.handle limits stamp now message).result =
        .ok (Handling.outcome ((FreeWindows.reply seconds cells []).map .responded)) := by
  obtain ⟨seconds, hOnce⟩ := hAsks.segments
  obtain ⟨plan, hPlan, hConstraints, hSlot⟩ := exists_plan now hType hOnce
  have hComplete : ∀ r ∈ rows, r.isComplete = true := by
    intro r hr
    obtain ⟨_, _, _, _, -, rfl⟩ := hRows r hr
    rfl
  have hFound : db.findTable (Command.targetName
      (Handling.command limits message db.shortcuts)) = .ok (some t) := by
    rw [hAsks.target]
    refine hDb.findTable.trans ?_
    rw [StoredTable.table_ofTable]
    rfl
  obtain ⟨found, hSelect, hCells⟩ :=
    Database.exists_select_column ht hDb hComplete hAsks.mem .ascending
  obtain ⟨hQuestion, hColumns, hAnswer⟩ := Reply.parts_of_slot limits.replyRows hSlot hConstraints
  rw [← hQuestion, ← hColumns] at hSelect
  refine ⟨seconds, _, hCells, ?_⟩
  rw [← hAnswer]
  exact Database.handle_of_query hBody rfl hFound hOpen hAsks.mode hPlan hSelect

/-- With a value in every row the question is answered. -/
theorem exists_responded (hValued : ∀ r ∈ rows, (r.value? c.storageName).isSome = true) :
    ∃ body, (db.handle limits stamp now message).result = .ok (.responded body) := by
  obtain ⟨seconds, cells, hCells, hResult⟩ := exists_cells ht hOpen hType hDb hRows hBody hAsks
  have hReadable : ∀ x ∈ cells, ∃ o, Occupied.ofStored x = .ok o := by
    intro x hx
    obtain ⟨r, hr, rfl⟩ := (hCells x).mp hx
    obtain ⟨value, hValue⟩ := Option.isSome_iff_exists.mp (hValued r hr)
    rw [hValue]
    exact exists_ofStored ht hAsks.mem hType (hRows r hr) hValue
  obtain ⟨body, hReply⟩ := exists_reply hReadable seconds
  refine ⟨body, ?_⟩
  rw [hResult, hReply]
  rfl

/-- Without a value in some row the question is refused, for an empty stored value. -/
theorem result_of_missing (hMissing : ∃ r ∈ rows, r.value? c.storageName = none) :
    (db.handle limits stamp now message).result = .ok (.notHandled (.corruptRange [])) := by
  obtain ⟨seconds, cells, hCells, hResult⟩ := exists_cells ht hOpen hType hDb hRows hBody hAsks
  have hEmpty : [] ∈ cells := by
    obtain ⟨r, hr, hNone⟩ := hMissing
    refine (hCells []).mpr ⟨r, hr, ?_⟩
    rw [hNone]
    rfl
  have hReadable : ∀ x ∈ cells, x ≠ [] → ∃ o, Occupied.ofStored x = .ok o := by
    intro x hx hSome
    obtain ⟨r, hr, rfl⟩ := (hCells x).mp hx
    cases hValue : r.value? c.storageName with
    | none =>
        rw [hValue] at hSome
        exact absurd rfl hSome
    | some value => exact exists_ofStored ht hAsks.mem hType (hRows r hr) hValue
  rw [hResult, reply_of_empty hReadable hEmpty]
  rfl

end Answer

/-- **Which questions about added rows are answered.**  Define an open table and let any
operations happen.  A question for the free windows of a span column is then answered if
and only if every row that was added to the table has a value in the column; otherwise it
is refused for a stored value that is the empty text. -/
theorem responded_iff {db₀ db : Database} {t : Table} {c : Column}
    (hDefine : db₀.define t = .ok db) (hOpen : t.accessTable = none)
    (hType : c.type = .dateRange) (ops : List Operation) (limits : Limits)
    (stamp now : Instant) (message : Message)
    (hBody : Command.isCommand message.body = true)
    (hAsks : Asks t c (Handling.command limits message (db.performAll ops).shortcuts)) :
    ((∃ body, ((db.performAll ops).handle limits stamp now message).result =
        .ok (.responded body)) ↔
      ∀ r ∈ db.addedRows t.displayName ops, (r.value? c.storageName).isSome = true) ∧
    ((∃ r ∈ db.addedRows t.displayName ops, r.value? c.storageName = none) →
      ((db.performAll ops).handle limits stamp now message).result =
        .ok (.notHandled (.corruptRange []))) := by
  have ht : t.IsDefinable := (Database.of_define hDefine).1
  have hNew : db.Registers (.ofTable t []) := Database.registers_of_define hDefine
  have hDb : (db.performAll ops).Registers (.ofTable t (db.addedRows t.displayName ops)) :=
    hNew.performAll ht ops
  have hRows : ∀ r ∈ db.addedRows t.displayName ops, r.OfAdd t :=
    fun r hr => hNew.ofAdd_of_mem_addedRows ht hr
  have hRefused : (∃ r ∈ db.addedRows t.displayName ops, r.value? c.storageName = none) →
      ((db.performAll ops).handle limits stamp now message).result =
        .ok (.notHandled (.corruptRange [])) :=
    result_of_missing ht hOpen hType hDb hRows hBody hAsks
  refine ⟨⟨fun hAnswered => ?_, ?_⟩, hRefused⟩
  · -- A missing value would have been answered otherwise.
    by_contra hNotAll
    have hMissing : ∃ r ∈ db.addedRows t.displayName ops, r.value? c.storageName = none := by
      simpa using hNotAll
    obtain ⟨body, hBodyText⟩ := hAnswered
    rw [hRefused hMissing] at hBodyText
    cases hBodyText
  · exact exists_responded ht hOpen hType hDb hRows hBody hAsks

/-- A house with its name and the spans when it is let. -/
def cottage : Table :=
  ⟨"house".toList, "house".toList,
    [{ storageName := ['n'], displayName := ['N'], type := .text },
      { storageName := ['l'], displayName := ['L'], type := .dateRange }], none⟩

/-- The column of spans. -/
def cottageLets : Column :=
  { storageName := ['l'], displayName := ['L'], type := .dateRange }

/-- A database with this table alone. -/
def cottageDb (rows : List StoredRow) : Database :=
  ⟨[.ofTable cottage rows]⟩

theorem define_cottage : Database.empty.define cottage = .ok (cottageDb []) := by
  rfl

theorem registers_cottageDb (rows : List StoredRow) :
    (cottageDb rows).Registers (.ofTable cottage rows) where
  mem := List.mem_cons_self
  isData := rfl
  id_unique _ hu _ := List.mem_singleton.mp hu
  displayName_unique _ hu _ _ := List.mem_singleton.mp hu

theorem shortcuts_cottageDb (rows : List StoredRow) : (cottageDb rows).shortcuts = [] := by
  unfold Database.shortcuts cottageDb StoredTable.ofTable Database.newTable
  simp

/-- When the messages below arrive. -/
def septemberNow : Instant :=
  Instant.midnight ⟨2024, 9, 1, by decide⟩

/-- A row with a name only. -/
def elmMessage : Message :=
  ⟨['7'], "@house +N Elm".toList⟩

/-- The row that this add leaves. -/
def elmRow : StoredRow :=
  .finished septemberNow ['7'] [(['n'], "Elm".toList)]

/-- A question for a free day. -/
def freeDay : Message :=
  ⟨['7'], "@house /L 1d".toList⟩

theorem freeDay_asks (rows : List StoredRow) :
    Asks cottage cottageLets (Handling.command {} freeDay (cottageDb rows).shortcuts) := by
  rw [shortcuts_cottageDb]
  refine ⟨by decide +kernel, by decide +kernel, 86400, [], ⟨.slot, ['L'], some ['1', 'd']⟩, [],
    ['1', 'd'], by decide +kernel, ?_, rfl, by decide +kernel, rfl, by decide +kernel⟩
  simp

theorem row_elm :
    Add.row septemberNow cottage " +N Elm".toList = .ok [(['n'], "Elm".toList)] := by
  decide +kernel

theorem handle_elm :
    ((cottageDb []).handle {} septemberNow septemberNow elmMessage).result =
        .ok (.inserted cottage.displayName [(['n'], "Elm".toList)]) ∧
      ((cottageDb []).handle {} septemberNow septemberNow elmMessage).state =
        cottageDb [elmRow] := by
  have hInsert : (cottageDb []).insert septemberNow cottage [(['n'], "Elm".toList)] ['7'] =
      .ok (cottageDb [elmRow]) :=
    (Database.insert_eq (Database.of_define define_cottage).1 (registers_cottageDb [])
      (Add.built_of_row row_elm) ['7']).trans rfl
  have hFound : (cottageDb []).findTable "house".toList = .ok (some cottage) := by
    refine (registers_cottageDb []).findTable.trans ?_
    rw [StoredTable.table_ofTable]
    rfl
  have hCommand : Handling.command {} elmMessage (cottageDb []).shortcuts =
      "@house +N Elm".toList := by
    rw [shortcuts_cottageDb]
    decide +kernel
  exact Database.handle_of_add (by decide +kernel) hCommand hFound rfl (by decide +kernel)
    row_elm hInsert

/-- The add as the one operation after the definition. -/
def elm : List Operation :=
  [.handle {} septemberNow septemberNow elmMessage]

theorem performAll_elm : (cottageDb []).performAll elm = cottageDb [elmRow] :=
  handle_elm.2

theorem addedRows_elm : (cottageDb []).addedRows cottage.displayName elm = [elmRow] := by
  unfold elm
  rw [Database.addedRows, Database.addedRow?, handle_elm.1]
  rfl

/-- After a row with a name only, the question is refused. -/
theorem responded_iff_cottage :
    ((∃ body, (((cottageDb []).performAll elm).handle {} septemberNow septemberNow
        freeDay).result = .ok (.responded body)) ↔
      ∀ r ∈ (cottageDb []).addedRows cottage.displayName elm,
        (r.value? cottageLets.storageName).isSome = true) ∧
    (((cottageDb []).performAll elm).handle {} septemberNow septemberNow freeDay).result =
      .ok (.notHandled (.corruptRange [])) := by
  have hAsks := freeDay_asks [elmRow]
  rw [← performAll_elm] at hAsks
  have hMissing : ∃ r ∈ (cottageDb []).addedRows cottage.displayName elm,
      r.value? cottageLets.storageName = none := by
    rw [addedRows_elm]
    exact ⟨elmRow, List.mem_cons_self, rfl⟩
  have hIff := responded_iff define_cottage rfl rfl elm {} septemberNow septemberNow freeDay
    (by decide +kernel) hAsks
  exact ⟨hIff.1, hIff.2 hMissing⟩

/-- Rows that messages have added can stand in the way of an answer. -/
theorem not_always_responded :
    ¬ ∀ (db : Database) (t : Table) (c : Column) (sent : List Message) (now : Instant)
      (message : Message), Database.empty.define t = .ok db → t.accessTable = none →
      c.type = .dateRange → Command.isCommand message.body = true →
      Asks t c (Handling.command {} message
        (db.performAll (sent.map (.handle {} now now))).shortcuts) →
      ∃ body, ((db.performAll (sent.map (.handle {} now now))).handle {} now now message).result =
        .ok (.responded body) := by
  intro hAlways
  have hAsks := freeDay_asks [elmRow]
  rw [← performAll_elm] at hAsks
  obtain ⟨body, hResponded⟩ := hAlways (cottageDb []) cottage cottageLets [elmMessage]
    septemberNow freeDay define_cottage rfl rfl (by decide +kernel) hAsks
  have hRows : ∀ r ∈ [elmRow], r.OfAdd cottage := by
    intro r hr
    rw [List.mem_singleton.mp hr]
    exact ⟨septemberNow, septemberNow, ['7'], _, Add.built_of_row row_elm, rfl⟩
  have hRefused : ((cottageDb [elmRow]).handle {} septemberNow septemberNow freeDay).result =
      .ok (.notHandled (.corruptRange [])) :=
    result_of_missing (Database.of_define define_cottage).1 rfl rfl
      (registers_cottageDb [elmRow]) hRows (by decide +kernel) (freeDay_asks [elmRow])
      ⟨elmRow, List.mem_cons_self, rfl⟩
  change (((cottageDb []).performAll elm).handle {} septemberNow septemberNow freeDay).result =
    .ok (.responded body) at hResponded
  rw [performAll_elm, hRefused] at hResponded
  cases hResponded

end Slot

end TableTalk
