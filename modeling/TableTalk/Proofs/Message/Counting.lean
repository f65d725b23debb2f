import Mathlib.Algebra.GroupWithZero.Nat
import Mathlib.Data.List.Nodup
import TableTalk.Message.Metrics
import TableTalk.Proofs.Message.Rejected

/-!
# What the counters say

Counting happens at two points of a handling: a rejection is counted where the stages hand it
on (`Metrics.rejected`), and the ending where the handling reports it (`Metrics.ended`).  The
two points are passed one after the other, so the counters could disagree if a stage reported
an outcome of its own that is called unhandled.  No stage does (`Call.stages_ne_notHandled`),
and so a message is counted as a whole by its result (`Metrics.handled_eq_record`).

`Metrics.Accounts` is what the counters say of the messages handled so far, whatever hosts
they met.  One more message keeps it (`Accounts.handled`), and `account_for_calls` reads it off
the reported names.
-/

namespace TableTalk

/-- A message that is handled on a host. -/
structure Call where
  {σ : Type}
  host : Host σ
  /-- State of the host when the message comes in -/
  state : σ
  limits : Limits
  now : Instant
  message : Message

namespace Call

/-- What the stages lead to. -/
def stages (c : Call) : Except Failure (Except Rejection Outcome) :=
  ((Handling.stages c.limits c.now c.message).run c.host c.state).result

/-- What the handling reports. -/
def result (c : Call) : Except Failure Outcome :=
  ((Handling.handle c.limits c.now c.message).run c.host c.state).result

/-- The handling ended this way. -/
def EndedAs (c : Call) : Ending → Prop
  | .inserted => ∃ table values, c.result = .ok (.inserted table values)
  | .responded => ∃ body, c.result = .ok (.responded body)
  | .notHandled => ∃ cause, c.result = .ok (.notHandled cause)
  | .failed => ∃ e, c.result = .error e

/-- The message was not handled, for a cause of this group. -/
def RejectedFor (c : Call) (reason : Reason) : Prop :=
  ∃ cause, c.result = .ok (.notHandled cause) ∧ cause.reason = reason

theorem ofResult_eq_iff (c : Call) (e : Ending) : Ending.ofResult c.result = e ↔ c.EndedAs e := by
  unfold EndedAs Ending.ofResult
  rcases hResult : c.result with failure | (⟨table, values⟩ | ⟨body⟩ | ⟨cause⟩) <;>
    cases e <;> simp

instance (c : Call) (e : Ending) : Decidable (c.EndedAs e) :=
  decidable_of_iff _ (c.ofResult_eq_iff e)

/-- The cause of a message that is not handled. -/
def cause? (c : Call) : Option Rejection :=
  match c.result with
  | .ok (.notHandled cause) => some cause
  | .ok (.inserted _ _) | .ok (.responded _) | .error _ => none

theorem cause?_eq_some_iff (c : Call) (cause : Rejection) :
    c.cause? = some cause ↔ c.result = .ok (.notHandled cause) := by
  unfold cause?
  rcases hResult : c.result with failure | (⟨table, values⟩ | ⟨body⟩ | ⟨cause'⟩) <;> simp

theorem map_reason_cause?_iff (c : Call) (reason : Reason) :
    c.cause?.map Rejection.reason = some reason ↔ c.RejectedFor reason := by
  simp only [Option.map_eq_some_iff, cause?_eq_some_iff, RejectedFor]

instance (c : Call) (reason : Reason) : Decidable (c.RejectedFor reason) :=
  decidable_of_iff _ (c.map_reason_cause?_iff reason)

theorem result_eq (c : Call) : c.result = c.stages.map Handling.outcome := by
  unfold result stages Handling.handle
  rw [Program.run_bind_done]

/-- No stage calls a message unhandled but by rejecting it. -/
theorem stages_ne_notHandled (c : Call) (cause : Rejection) :
    c.stages ≠ .ok (.ok (.notHandled cause)) := by
  intro h
  have hPath := Program.follows_run c.host (Handling.stages c.limits c.now c.message) c.state
  rw [show ((Handling.stages c.limits c.now c.message).run c.host c.state).result = _ from h]
    at hPath
  exact Handling.not_follows_stages_notHandled hPath

end Call

namespace Metrics

variable {m : Metrics} {calls : List Call}

/-! ### The two points where a handling is counted -/

/-- Count a rejection by its reason. -/
def rejected (m : Metrics) (cause : Rejection) : Metrics :=
  { m with rejections := bump m.rejections cause.reason }

/-- Count and time a handling by its ending. -/
def ended (m : Metrics) (e : Ending) : Metrics :=
  { m with messages := bump m.messages e, durations := m.durations + 1 }

/-- The counters after a message: a rejection is counted when the stages hand it on, and then
every handling by what it reports. -/
def handled (m : Metrics) (c : Call) : Metrics :=
  match c.stages with
  | .ok (.error cause) => (m.rejected cause).ended (Ending.ofResult c.result)
  | .ok (.ok _) | .error _ => m.ended (Ending.ofResult c.result)

/-- The two points count the result as a whole. -/
theorem handled_eq_record (m : Metrics) (c : Call) : m.handled c = m.record c.result := by
  have hResult := c.result_eq
  unfold handled
  rcases hStages : c.stages with e | cause | o
  · rw [hStages] at hResult
    rw [hResult]
    rfl
  · rw [hStages] at hResult
    rw [hResult]
    rfl
  · rw [hStages] at hResult
    rw [hResult]
    cases o with
    | inserted table values => rfl
    | responded body => rfl
    | notHandled cause => exact absurd hStages (c.stages_ne_notHandled cause)

/-! ### One more of a kind -/

theorem bump_self {κ : Type} [DecidableEq κ] (count : κ → Nat) (k : κ) :
    bump count k k = count k + 1 :=
  if_pos rfl

theorem bump_of_ne {κ : Type} [DecidableEq κ] {count : κ → Nat} {k x : κ} (h : x ≠ k) :
    bump count k x = count x :=
  if_neg h

/-- One more of a kind is one more of all kinds together. -/
theorem sum_map_bump {κ : Type} [DecidableEq κ] {ks : List κ} {k : κ} (count : κ → Nat)
    (hNodup : ks.Nodup) (hk : k ∈ ks) :
    (ks.map (bump count k)).sum = (ks.map count).sum + 1 := by
  induction ks with
  | nil => cases hk
  | cons x ks ih =>
      obtain ⟨hx, hNodup⟩ := List.nodup_cons.mp hNodup
      rw [List.map_cons, List.map_cons, List.sum_cons, List.sum_cons]
      rcases List.mem_cons.mp hk with rfl | hk
      · have hRest : ks.map (bump count k) = ks.map count :=
          List.map_congr_left fun y hy => bump_of_ne fun hSame => hx (hSame ▸ hy)
        rw [bump_self, hRest]
        omega
      · have hOther : x ≠ k := fun hSame => hx (hSame ▸ hk)
        rw [bump_of_ne hOther, ih hNodup hk]
        omega

/-- A message that is of one kind only makes one more of that kind. -/
theorem bump_eq_countP {κ : Type} [DecidableEq κ] {count : κ → Nat} {k : κ}
    {P : Call → κ → Prop} [∀ c k, Decidable (P c k)] {c : Call}
    (hHere : ∀ x, P c x ↔ x = k) (h : ∀ x, count x = calls.countP fun c => P c x) (x : κ) :
    bump count k x = (calls ++ [c]).countP fun c => P c x := by
  rw [List.countP_append, ← h x]
  by_cases hx : x = k
  · subst hx
    have hOne : P c x := (hHere x).mpr rfl
    rw [bump_self, List.countP_singleton]
    simp [hOne]
  · have hNone : ¬ P c x := fun hP => hx ((hHere x).mp hP)
    rw [bump_of_ne hx, List.countP_singleton]
    simp [hNone]

/-! ### All messages -/

/-- The counters are those of these messages. -/
structure Accounts (m : Metrics) (calls : List Call) : Prop where
  messages : ∀ e, m.messages e = calls.countP fun c => c.EndedAs e
  rejections : ∀ r, m.rejections r = calls.countP fun c => c.RejectedFor r
  durations : m.durations = calls.length
  /-- Every message ended in one way -/
  sum_messages : (Ending.all.map m.messages).sum = calls.length
  /-- Every message that is not handled has one reason -/
  sum_rejections : (Reason.all.map m.rejections).sum = m.messages .notHandled

theorem accounts_nil : Accounts {} [] where
  messages _ := rfl
  rejections _ := rfl
  durations := rfl
  sum_messages := rfl
  sum_rejections := rfl

/-- One more message is counted once by its ending, once by its reason if it is not handled,
and timed once. -/
theorem Accounts.handled (h : m.Accounts calls) (c : Call) :
    (m.handled c).Accounts (calls ++ [c]) := by
  rw [handled_eq_record]
  have hEnding : ∀ e, c.EndedAs e ↔ e = Ending.ofResult c.result :=
    fun e => (c.ofResult_eq_iff e).symm.trans eq_comm
  have hSum : (Ending.all.map (m.record c.result).messages).sum = (calls ++ [c]).length := by
    rw [List.length_append, List.length_singleton, ← h.sum_messages]
    exact sum_map_bump m.messages (by decide) (by cases Ending.ofResult c.result <;> decide)
  have hMessages := bump_eq_countP hEnding h.messages
  have hDurations : m.durations + 1 = (calls ++ [c]).length := by
    rw [h.durations, List.length_append, List.length_singleton]
  by_cases hRejected : ∃ cause, c.result = .ok (.notHandled cause)
  · obtain ⟨cause, hResult⟩ := hRejected
    have hReason : ∀ r, c.RejectedFor r ↔ r = cause.reason := by
      intro r
      simp [Call.RejectedFor, hResult, eq_comm]
    have hRecord : (m.record c.result).rejections = bump m.rejections cause.reason := by
      rw [hResult]
      rfl
    have hNotHandled : (m.record c.result).messages .notHandled = m.messages .notHandled + 1 := by
      rw [hResult]
      exact bump_self m.messages .notHandled
    refine ⟨hMessages, fun r => ?_, hDurations, hSum, ?_⟩
    · rw [hRecord]
      exact bump_eq_countP hReason h.rejections r
    · rw [hRecord, hNotHandled, ← h.sum_rejections]
      exact sum_map_bump m.rejections (by decide) (by cases cause.reason <;> decide)
  · -- The reasons stay as they are, and so does the count of messages not handled.
    have hReason : ∀ r, ¬ c.RejectedFor r := fun r ⟨cause, hResult, _⟩ =>
      hRejected ⟨cause, hResult⟩
    have hRecord : (m.record c.result).rejections = m.rejections := by
      unfold record
      split
      · rename_i cause hResult
        exact absurd ⟨cause, hResult⟩ hRejected
      · rfl
    have hNotHandled : (m.record c.result).messages .notHandled = m.messages .notHandled :=
      bump_of_ne fun hSame => hRejected ((hEnding .notHandled).mpr hSame)
    refine ⟨hMessages, fun r => ?_, hDurations, hSum, ?_⟩
    · rw [hRecord, h.rejections, List.countP_append, List.countP_singleton]
      simp [hReason]
    · rw [hRecord, hNotHandled, h.sum_rejections]

/-- The counters after messages on any hosts, from empty ones. -/
def ofCalls (calls : List Call) : Metrics :=
  calls.foldl handled {}

theorem accounts_ofCalls (calls : List Call) : (ofCalls calls).Accounts calls := by
  induction calls using List.reverseRecOn with
  | nil => exact accounts_nil
  | append_singleton calls c ih =>
      rw [ofCalls, List.foldl_append]
      exact ih.handled c

/-- These are the counters that record the results one after another. -/
theorem ofCalls_eq_foldl_record (calls : List Call) :
    ofCalls calls = (calls.map Call.result).foldl record {} := by
  unfold ofCalls
  rw [List.foldl_map]
  exact List.foldl_ext _ _ _ fun m c _ => handled_eq_record m c

/-! ### Reported names -/

/-- The name of the counter of an ending. -/
def messagesName (e : Ending) : Text :=
  "tables_sms_messages_total\x7boutcome=".toList ++ e.name ++ ['\x7d']

/-- The name of the counter of a reason. -/
def rejectionsName (r : Reason) : Text :=
  "tables_sms_rejections_total\x7breason=".toList ++ r.name ++ ['\x7d']

/-- The name of the counter of durations. -/
def durationsName : Text :=
  "tables_sms_message_duration_seconds\x7b\x7d".toList

/-- What is reported under a name.  Counters that are zero are not reported. -/
def reported (m : Metrics) (name : Text) : Nat :=
  (m.entries.lookup name).getD 0

/-- All counters by their names, those that are zero included. -/
def counters (m : Metrics) : List (Text × Nat) :=
  Ending.all.map (fun e => (messagesName e, m.messages e)) ++
    Reason.all.map (fun r => (rejectionsName r, m.rejections r)) ++
    [(durationsName, m.durations)]

theorem entries_eq (m : Metrics) : m.entries = m.counters.filter fun e => e.2 != 0 := rfl

/-- Every counter has a name of its own. -/
theorem nodup_names (m : Metrics) : (m.counters.map Prod.fst).Nodup := by
  have hNames : m.counters.map Prod.fst =
      Ending.all.map messagesName ++ Reason.all.map rejectionsName ++ [durationsName] := by
    simp [counters, Function.comp_def]
  rw [hNames]
  decide +kernel

theorem lookup_eq_of_mem {κ ι : Type} [BEq κ] [LawfulBEq κ] {l : List (κ × ι)}
    (hNodup : (l.map Prod.fst).Nodup) {k : κ} {v : ι} (h : (k, v) ∈ l) : l.lookup k = some v := by
  obtain ⟨front, back, rfl⟩ := List.append_of_mem h
  refine List.lookup_eq_some_iff.mpr ⟨front, back, rfl, fun p hp => ?_⟩
  rw [List.map_append, List.map_cons] at hNodup
  rw [bne_iff_ne]
  intro hSame
  exact (List.nodup_append'.mp hNodup).2.2 (List.mem_map_of_mem hp)
    (hSame ▸ List.mem_cons_self)

/-- Leaving out the zeros does not change what is reported. -/
theorem reported_of_mem {name : Text} {n : Nat} (h : (name, n) ∈ m.counters) :
    m.reported name = n := by
  unfold reported
  rw [entries_eq]
  by_cases hZero : n = 0
  · have hNone : (m.counters.filter fun e => e.2 != 0).lookup name = none := by
      refine List.lookup_eq_none_iff.mpr fun p hp => ?_
      obtain ⟨hMem, hSome⟩ := List.mem_filter.mp hp
      rw [bne_iff_ne] at hSome ⊢
      rintro rfl
      have hSame := (lookup_eq_of_mem m.nodup_names hMem).symm.trans
        (lookup_eq_of_mem m.nodup_names h)
      exact hSome ((Option.some.inj hSame).trans hZero)
    rw [hNone, hZero]
    rfl
  · have hKept : (name, n) ∈ m.counters.filter fun e => e.2 != 0 :=
      List.mem_filter.mpr ⟨h, by simpa using hZero⟩
    have hNodup : ((m.counters.filter fun e => e.2 != 0).map Prod.fst).Nodup :=
      m.nodup_names.sublist (List.filter_sublist.map Prod.fst)
    rw [lookup_eq_of_mem hNodup hKept]
    rfl

theorem reported_messages (m : Metrics) (e : Ending) :
    m.reported (messagesName e) = m.messages e := by
  have hAll : e ∈ Ending.all := by cases e <;> decide
  exact reported_of_mem (List.mem_append_left _ (List.mem_append_left _
    (List.mem_map_of_mem (f := fun e => (messagesName e, m.messages e)) hAll)))

theorem reported_rejections (m : Metrics) (r : Reason) :
    m.reported (rejectionsName r) = m.rejections r := by
  have hAll : r ∈ Reason.all := by cases r <;> decide
  exact reported_of_mem (List.mem_append_left _ (List.mem_append_right _
    (List.mem_map_of_mem (f := fun r => (rejectionsName r, m.rejections r)) hAll)))

theorem reported_durations (m : Metrics) : m.reported durationsName = m.durations :=
  reported_of_mem (List.mem_append_right _ List.mem_cons_self)

/-- **Every message is accounted for.**  Let messages be handled one after another, on any
hosts, and counted from empty counters, at the two points or by their results.  Under the name
of each ending the number of messages that ended so is reported, and under the name of each
reason the number of those that were not handled for it.  The endings sum to the number of
messages, which is also the number of durations, and the reasons sum to the messages not
handled. -/
theorem account_for_calls (calls : List Call) :
    ofCalls calls = (calls.map Call.result).foldl record {} ∧
    (∀ e, (ofCalls calls).reported (messagesName e) = calls.countP fun c => c.EndedAs e) ∧
    (∀ r, (ofCalls calls).reported (rejectionsName r) =
      calls.countP fun c => c.RejectedFor r) ∧
    (ofCalls calls).reported durationsName = calls.length ∧
    (Ending.all.map fun e => (ofCalls calls).reported (messagesName e)).sum = calls.length ∧
    (Reason.all.map fun r => (ofCalls calls).reported (rejectionsName r)).sum =
      (ofCalls calls).reported (messagesName .notHandled) := by
  have h := accounts_ofCalls calls
  simp only [reported_messages, reported_rejections, reported_durations]
  exact ⟨ofCalls_eq_foldl_record calls, h.messages, h.rejections, h.durations, h.sum_messages,
    h.sum_rejections⟩

end Metrics

end TableTalk
