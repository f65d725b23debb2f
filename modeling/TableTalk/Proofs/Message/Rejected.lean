import TableTalk.Proofs.Command.ByPairs
import TableTalk.Proofs.Command.Pairs
import TableTalk.Proofs.Message.Course
import TableTalk.Proofs.Query.BySegments
import TableTalk.Proofs.Traversal

/-!
# What a rejected message leaves behind

A message that is not handled inserts nothing and sends nothing.  Whether it has
read rows is told by its cause alone: every cause but one is found before the
store is asked, and `corruptRange` is found in the cells that a select gave back.

The first half of the module sorts the causes by where they come from.  Commands,
adds, filters and plans never report a corrupt range (`Rejection.OfMessage`), and
the reply to a question for free windows reports nothing else
(`exists_of_ofCells_error`).  The second half follows the courses of a handling.
-/

namespace TableTalk

/-! ### Where the causes come from -/

/-- The cause is not about a stored cell. -/
def Rejection.OfMessage (cause : Rejection) : Prop :=
  ∀ cell, cause ≠ .corruptRange cell

theorem Value.ofMessage_of_normalize_error {now : Instant} {column : Column} {input : Text}
    {cause : Rejection} (h : normalize now column input = .error cause) : cause.OfMessage := by
  unfold normalize at h
  split at h
  · cases h
  · cases h
    exact fun _ => nofun

theorem Add.ofMessage_of_row_error {now : Instant} {table : Table} {args : Text}
    {cause : Rejection} (h : row now table args = .error cause) : cause.OfMessage := by
  rcases row_eq_error_iff.mp h with hPairs | ⟨_, p, _, -, -, hRefused⟩
  · obtain ⟨front, t, back, -, -, -, rfl⟩ := pairs_eq_error_iff.mp hPairs
    exact fun _ => nofun
  · cases hRefused with
    | unknownColumn => exact fun _ => nofun
    | invalidValue => exact fun _ => nofun

theorem Filter.ofMessage_of_constraints_error {now : Instant} {column : Column} {op : FilterOp}
    {value : Text} {cause : Rejection} (h : constraints now column op value = .error cause) :
    cause.OfMessage := by
  unfold constraints at h
  split at h
  · split at h
    · cases h
    · split at h
      · unfold ofInstant at h
        split at h
        · cases h
          exact fun _ => nofun
        · cases h
      · cases h
        exact fun _ => nofun
  · split at h
    case h_1 => cases h
    case h_2 hValue =>
      cases h
      exact Value.ofMessage_of_normalize_error hValue

theorem Plan.ofMessage_of_compile_error {now : Instant} {table : Table} {args : Text}
    {cause : Rejection} (h : compile now table args = .error cause) : cause.OfMessage := by
  rcases compile_eq_error_iff.mp h with ⟨_, s, _, -, -, hRefused⟩ | ⟨-, -, rfl⟩
  · cases hRefused with
    | invalidFilter hLabel hMarker hValue hFilter =>
        exact Filter.ofMessage_of_constraints_error hFilter
    | _ => exact fun _ => nofun
  · exact fun _ => nofun

theorem Command.ofMessage_of_mode_error {command : Text} {cause : Rejection}
    (h : mode command = .error cause) : cause.OfMessage := by
  unfold mode at h
  split at h
  · cases h
    exact fun _ => nofun
  · cases h
  · cases h

namespace FreeWindows

theorem exists_of_bound_error {value : Text} {cause : Rejection}
    (h : Occupied.bound value = .error cause) : ∃ cell, cause = .corruptRange cell := by
  unfold Occupied.bound at h
  split at h
  · cases h
  · cases h
    exact ⟨value, rfl⟩

theorem exists_of_ofStored_error {cell : Text} {cause : Rejection}
    (h : Occupied.ofStored cell = .error cause) : ∃ cell, cause = .corruptRange cell := by
  unfold Occupied.ofStored at h
  split at h
  · cases h
  · cases h
    exact ⟨cell, rfl⟩

/-- A constraint is refused for a bound that cannot be read. -/
theorem exists_of_take_error {f : Occupied.Folding} {c : Constraint} {cause : Rejection}
    (h : f.take c = .error cause) : ∃ cell, cause = .corruptRange cell := by
  unfold Occupied.Folding.take at h
  split at h
  · split at h
    case h_1 hSides =>
      cases h
      unfold Occupied.ofSides at hSides
      split at hSides
      split at hSides
      case h_1 hStart =>
        cases hSides
        exact exists_of_bound_error hStart
      case h_2 =>
        split at hSides
        case h_1 hStop =>
          cases hSides
          exact exists_of_bound_error hStop
        case h_2 => cases hSides
    case h_2 => cases h
  · split at h
    case h_1 hValue =>
      cases h
      exact exists_of_bound_error hValue
    case h_2 => split at h <;> cases h

/-- A question for free windows is refused for a stored text only. -/
theorem exists_of_ofCells_error {minGap : Int} {cells : List Text} {cs : List Constraint}
    {cause : Rejection} (h : ofCells minGap cells cs = .error cause) :
    ∃ cell, cause = .corruptRange cell := by
  unfold ofCells at h
  split at h
  case h_1 hCells =>
    cases h
    obtain ⟨cell, -, hCell⟩ := Traversal.exists_of_mapM_error hCells
    exact exists_of_ofStored_error hCell
  case h_2 =>
    split at h
    case h_1 hBounds =>
      cases h
      unfold Occupied.applyConstraints at hBounds
      split at hBounds
      case h_1 hFold =>
        cases hBounds
        obtain ⟨c, -, f, hTake⟩ := Traversal.exists_of_foldlM_error hFold
        exact exists_of_take_error hTake
      case h_2 => cases hBounds
    case h_2 => cases h

end FreeWindows

theorem Reply.exists_of_answer_error {limit : Nat} {plan : Plan} {found : List Row}
    {cause : Rejection} (h : answer limit plan found = .error cause) :
    ∃ cell, cause = .corruptRange cell := by
  unfold answer at h
  split at h
  · exact FreeWindows.exists_of_ofCells_error h
  · cases h

/-! ### Requests of a rejected message -/

/-- The request changes rows or reaches the sender. -/
def Request.IsEffect : Request → Prop
  | insert _ _ _ => True
  | send _ _ => True
  | _ => False

/-- The request reads rows. -/
def Request.IsSelect : Request → Prop
  | select _ _ _ => True
  | _ => False

theorem Request.Prepares.not_isEffect {request : Request} (h : request.Prepares) :
    ¬ request.IsEffect ∧ ¬ request.IsSelect := by
  cases request with
  | shortcuts | findTable | hasCredential => exact ⟨id, id⟩
  | select | insert | send => exact h.elim

namespace Handling

open Program (Follows)

variable {limits : Limits} {now : Instant} {message : Message}

/-- A handling that stops on the way does not report a corrupt range. -/
theorem Stopped.ofMessage {xs : List Exchange} {cause : Rejection}
    (h : Stopped limits message xs (.ok (.error cause))) : cause.OfMessage := by
  cases h with
  | notACommand | unknownTable | unauthorized => exact fun _ => nofun
  | withoutMode _ _ _ _ hMode => exact Command.ofMessage_of_mode_error hMode

/-- The work refuses a message before it asks for anything, or after a select whose
cells it cannot read. -/
theorem Working.of_refused {table : Table} {args : Text} {mode : Command.Mode}
    {xs : List Exchange} {cause : Rejection}
    (h : Working limits now message table args mode xs (.ok (.error cause))) :
    (xs = [] ∧ cause.OfMessage) ∨
      ∃ query columns found cell,
        xs = [⟨.select table query columns, .ok found⟩] ∧ cause = .corruptRange cell := by
  cases h with
  | rowRefused _ hRow => exact Or.inl ⟨rfl, Add.ofMessage_of_row_error hRow⟩
  | planRefused _ hPlan => exact Or.inl ⟨rfl, Plan.ofMessage_of_compile_error hPlan⟩
  | replyRefused plan _ found _ hReply =>
      obtain ⟨cell, rfl⟩ := Reply.exists_of_answer_error hReply
      exact Or.inr ⟨_, _, found, cell, rfl, rfl⟩

/-- The work itself never calls a message unhandled: only a refusal does. -/
theorem Working.of_notHandled {table : Table} {args : Text} {mode : Command.Mode}
    {xs : List Exchange} {cause : Rejection} :
    ¬ Working limits now message table args mode xs (.ok (.ok (.notHandled cause))) :=
  nofun

/-- No stage reports an outcome that is called unhandled. -/
theorem not_follows_stages_notHandled {xs : List Exchange} {cause : Rejection} :
    ¬ Follows (stages limits now message) xs (.ok (.ok (.notHandled cause))) := by
  intro h
  rcases follows_stages h with hStop | ⟨_, _, _, _, _, _, _, hWork⟩
  · cases hStop
  · exact Working.of_notHandled hWork

/-- A message is not handled because a stage refused it. -/
theorem follows_stages_of_notHandled {xs : List Exchange} {cause : Rejection}
    (h : Follows (handle limits now message) xs (.ok (.notHandled cause))) :
    Follows (stages limits now message) xs (.ok (.error cause)) := by
  obtain ⟨q, hStages, hq⟩ := follows_handle h
  rcases q with e | cause' | o
  · cases hq
  · obtain rfl : cause = cause' := by simpa [Except.map, outcome] using hq
    exact hStages
  · obtain rfl : .notHandled cause = o := by simpa [Except.map, outcome] using hq
    exact absurd hStages not_follows_stages_notHandled

/-- On a path that ends unhandled nothing is inserted or sent, and rows were read if
and only if the cause is a stored cell. -/
theorem effects_of_notHandled {xs : List Exchange} {cause : Rejection}
    (h : Follows (handle limits now message) xs (.ok (.notHandled cause))) :
    (∀ x ∈ xs, ¬ x.request.IsEffect) ∧
      ((∀ x ∈ xs, ¬ x.request.IsSelect) ↔ cause.OfMessage) := by
  rcases follows_stages (follows_stages_of_notHandled h) with
    hStop | ⟨shortcuts, table, mode, ys, -, -, rfl, hWork⟩
  · have hPrepares : ∀ x ∈ xs, ¬ x.request.IsEffect ∧ ¬ x.request.IsSelect :=
      fun x hx => (hStop.prepares hx).not_isEffect
    exact ⟨fun x hx => (hPrepares x hx).1,
      iff_of_true (fun x hx => (hPrepares x hx).2) hStop.ofMessage⟩
  have hPrepares : ∀ x ∈ admission message shortcuts (command limits message shortcuts) table,
      ¬ x.request.IsEffect ∧ ¬ x.request.IsSelect :=
    fun x hx => (prepares_of_mem_admission hx).not_isEffect
  rcases hWork.of_refused with ⟨rfl, hCause⟩ | ⟨query, columns, found, cell, rfl, rfl⟩
  · -- Refused before anything was asked of the table.
    rw [List.append_nil]
    exact ⟨fun x hx => (hPrepares x hx).1,
      iff_of_true (fun x hx => (hPrepares x hx).2) hCause⟩
  · -- Refused for a cell: the one request of the work is the select that found it.
    constructor
    · intro x hx
      rcases List.mem_append.mp hx with hx | hx
      · exact (hPrepares x hx).1
      · rw [List.mem_singleton.mp hx]
        exact id
    · refine iff_of_false (fun hNone => ?_) (fun hCause => hCause cell rfl)
      exact hNone ⟨.select table query columns, .ok found⟩ (by simp) trivial

/-- **A message that is not handled has no effect.**  On every host it inserts nothing
and sends nothing, and it has read no rows exactly when its cause is not a stored cell
that cannot be read as a range. -/
theorem notHandled_without_effect {σ : Type} (limits : Limits) (now : Instant)
    (message : Message) (host : Host σ) (s : σ) (cause : Rejection)
    (hResult : ((handle limits now message).run host s).result = .ok (.notHandled cause)) :
    (∀ table values sender,
      .insert table values sender ∉ ((handle limits now message).run host s).requests) ∧
    (∀ phone body, .send phone body ∉ ((handle limits now message).run host s).requests) ∧
    ((∀ table query columns,
        .select table query columns ∉ ((handle limits now message).run host s).requests) ↔
      ∀ cell, cause ≠ .corruptRange cell) := by
  have hPath := Program.follows_run host (handle limits now message) s
  rw [hResult] at hPath
  obtain ⟨hEffect, hSelect⟩ := effects_of_notHandled hPath
  have hRequests := Program.requests_run host (handle limits now message) s
  have hMem : ∀ request, request ∈ ((handle limits now message).run host s).requests ↔
      ∃ x ∈ (handle limits now message).exchanges host s, x.request = request := by
    intro request
    rw [hRequests, List.mem_map]
  refine ⟨?_, ?_, ?_⟩
  · intro table values sender hIn
    obtain ⟨x, hx, hReq⟩ := (hMem _).mp hIn
    exact hEffect x hx (hReq ▸ trivial)
  · intro phone body hIn
    obtain ⟨x, hx, hReq⟩ := (hMem _).mp hIn
    exact hEffect x hx (hReq ▸ trivial)
  · rw [← Rejection.OfMessage, ← hSelect]
    constructor
    · intro hNone x hx hIsSelect
      rcases hReq : x.request with _ | _ | _ | ⟨table, query, columns⟩ | _ | _
      case select => exact hNone table query columns ((hMem _).mpr ⟨x, hx, hReq⟩)
      all_goals exact (hReq ▸ hIsSelect : Request.IsSelect _)
    · intro hNone table query columns hIn
      obtain ⟨x, hx, hReq⟩ := (hMem _).mp hIn
      exact hNone x hx (hReq ▸ trivial)

/-- An open table whose only column holds the spans when a house is let. -/
def letHouse : Table :=
  ⟨['h', 'o', 'u', 's', 'e'], ['h', 'o', 'u', 's', 'e'],
    [{ storageName := ['l'], displayName := ['L'], type := .dateRange }], none⟩

/-- A question for the days a house is free, met by a cell that is not a span. -/
def letHandling : Run Unit Outcome :=
  (handle {} (.midnight ⟨2024, 3, 1, by decide⟩)
    ⟨['7'], ['@', 'h', 'o', 'u', 's', 'e', ' ', '/', 'L', ' ', '1', 'd']⟩).run
    (Host.ofTable letHouse false [[['J', 'u', 'n', 'e']]]) ()

theorem letHandling_result :
    letHandling.result = .ok (.notHandled (.corruptRange ['J', 'u', 'n', 'e'])) := by
  rfl

/-- The question is refused for its one cell, after a select and with no other effect. -/
theorem notHandled_without_effect_corrupt :
    letHandling.result = .ok (.notHandled (.corruptRange ['J', 'u', 'n', 'e'])) ∧
    (∀ table values sender, .insert table values sender ∉ letHandling.requests) ∧
    (∀ phone body, .send phone body ∉ letHandling.requests) ∧
    ((∀ table query columns, .select table query columns ∉ letHandling.requests) ↔
      ∀ cell, Rejection.corruptRange ['J', 'u', 'n', 'e'] ≠ .corruptRange cell) :=
  ⟨letHandling_result, notHandled_without_effect {} _ _ _ () _ letHandling_result⟩

/-- Not every rejected message has read no rows: this one has. -/
theorem not_rejected_without_select :
    ¬ ∀ cause, letHandling.result = .ok (.notHandled cause) →
      ∀ table query columns, .select table query columns ∉ letHandling.requests := by
  intro hNone
  have hRequests : letHandling.requests =
      [.shortcuts, .findTable ['h', 'o', 'u', 's', 'e'],
        .select letHouse { orderBy := some ⟨['l'], .ascending⟩ } [['l']]] := rfl
  refine hNone _ letHandling_result letHouse { orderBy := some ⟨['l'], .ascending⟩ } [['l']] ?_
  rw [hRequests]
  simp

end Handling

end TableTalk
