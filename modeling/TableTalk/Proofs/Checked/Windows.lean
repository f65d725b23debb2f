import TableTalk.Proofs.Checked.Slices
import TableTalk.Proofs.Time.DayNumbers
import TableTalk.Slot.FreeWindows

/-!
# Free windows by positions

Occupied spans are kept in a list, and a span is inserted at a position that was found in it.  The
gaps are read off the pairs of neighbours by their two positions, and their lengths are differences
of instants, which are only representable up to `Checked.maxNanos`.

No position is missing: the place of a span is at most the length of the list
(`Checked.place_le_length`), and a pair of neighbours has two items (`Checked.gaps_eq`).  No
difference is out of range, since the whole calendar is not (`Checked.difference_eq`).
-/

namespace TableTalk

namespace Checked

open FreeWindows (anytime before after)

/-! ### Lengths of gaps -/

/-- The greatest length of time in nanoseconds: 2^63 - 1 milliseconds. -/
def maxNanos : ℤ := 9223372036854775807000000

/-- Nanoseconds from one instant to another. -/
def difference (a b : Instant) : Checked ℤ :=
  if |a.nanosSince b| ≤ maxNanos then .ok (a.nanosSince b) else .error .range

/-- Any two instants of the calendar are near enough. -/
theorem difference_eq (a b : Instant) : difference a b = .ok (a.nanosSince b) := by
  refine if_pos (abs_le.mpr ?_)
  have hMin : daysBeforeYear minYear = -95746130 := by decide
  have hMax : daysBeforeYear (maxYear + 1) = 95745399 := by decide
  have ha := a.date.daysBeforeYear_minYear_le
  have ha' := a.date.dayNumber_lt_daysBeforeYear
  have hb := b.date.daysBeforeYear_minYear_le
  have hb' := b.date.dayNumber_lt_daysBeforeYear
  have hSecond := a.second_lt
  have hSecond' := b.second_lt
  have hNanos := a.nanos_lt
  have hNanos' := b.nanos_lt
  unfold Instant.nanosSince maxNanos
  simp only [secondsPerDay, nanosPerSecond] at *
  split_ifs <;> omega

/-! ### Insertion -/

/-- The place of a span: that of the first one that starts after it, or else the end. -/
def place (o : Occupied) (spans : List Occupied) : ℕ :=
  (spans.findIdx? (Occupied.startsBefore o)).getD spans.length

/-- Insert a span at its place. -/
def insertSorted (o : Occupied) (spans : List Occupied) : Checked (List Occupied) :=
  insertAt spans (place o spans) o

theorem place_cons (o x : Occupied) (rest : List Occupied) :
    place o (x :: rest) = if o.startsBefore x then 0 else place o rest + 1 := by
  unfold place
  rw [List.findIdx?_cons]
  split
  · rfl
  · cases rest.findIdx? (Occupied.startsBefore o) <;> rfl

theorem place_le_length (o : Occupied) (spans : List Occupied) : place o spans ≤ spans.length := by
  induction spans with
  | nil => exact le_refl 0
  | cons x rest ih =>
      rw [place_cons, List.length_cons]
      split
      · exact Nat.zero_le _
      · exact Nat.succ_le_succ ih

theorem insertIdx_place (o : Occupied) (spans : List Occupied) :
    spans.insertIdx (place o spans) o = Occupied.insertSorted o spans := by
  induction spans with
  | nil => rfl
  | cons x rest ih =>
      rw [place_cons, Occupied.insertSorted]
      split
      · rfl
      · rw [List.insertIdx_succ_cons, ih]

theorem insertSorted_eq (o : Occupied) (spans : List Occupied) :
    insertSorted o spans = .ok (Occupied.insertSorted o spans) := by
  unfold insertSorted
  rw [insertAt_eq_ok (place_le_length o spans), insertIdx_place]

/-- Take one constraint into the fold.  A single comparison has no place in the list. -/
def take (f : Occupied.Folding) (c : Constraint) : Checked (Except Rejection Occupied.Folding) :=
  match c.second with
  | some second =>
      match Occupied.ofSides c.first second with
      | .error e => return .error e
      | .ok o => do return .ok { f with spans := ← insertSorted o f.spans }
  | none => return f.take c

theorem take_eq (f : Occupied.Folding) (c : Constraint) : take f c = .ok (f.take c) := by
  unfold take
  cases hSecond : c.second with
  | none => rfl
  | some second =>
      simp only [Occupied.Folding.take, hSecond, insertSorted_eq, ok_bind]
      cases Occupied.ofSides c.first second with
      | error e => rfl
      | ok o => rfl

/-- All occupied spans of a fold. -/
def all (f : Occupied.Folding) : Checked (List Occupied) := do
  let spans ← match f.busyUntil with
    | some t => insertAt f.spans 0 ⟨none, some t⟩
    | none => .ok f.spans
  match f.busyFrom with
  | some t => insertSorted ⟨some t, none⟩ spans
  | none => return spans

theorem all_eq (f : Occupied.Folding) : all f = .ok f.all := by
  have hFirst (o : Occupied) : insertAt f.spans 0 o = .ok (o :: f.spans) :=
    insertAt_eq_ok (Nat.zero_le _)
  unfold all Occupied.Folding.all
  cases f.busyUntil <;> cases f.busyFrom <;> simp only [hFirst, insertSorted_eq, ok_bind] <;> rfl

/-- Occupied spans, sorted by start, with the constraints on the slot column. -/
def applyConstraints (spans : List Occupied) (constraints : List Constraint) :
    Checked (Except Rejection (List Occupied)) := do
  match ← fold take { spans } constraints with
  | .error e => return .error e
  | .ok f => return .ok (← all f)

theorem applyConstraints_eq (spans : List Occupied) (constraints : List Constraint) :
    applyConstraints spans constraints = .ok (Occupied.applyConstraints spans constraints) := by
  simp only [applyConstraints, Occupied.applyConstraints, fold_eq_ok_foldlM take_eq, all_eq, ok_bind]
  cases constraints.foldlM Occupied.Folding.take { spans } with
  | error e => rfl
  | ok f => rfl

/-! ### Gaps -/

/-- The pairs of neighbours of a list, each as a list of two. -/
def neighbours {α : Type} : List α → List (List α)
  | a :: b :: rest => [a, b] :: neighbours (b :: rest)
  | _ => []

/-- The gap between two neighbours, if it is long enough. -/
def gap (minGap : ℤ) (pair : List Occupied) : Checked (List Text) := do
  match (← item pair 0).stop, (← item pair 1).start with
  | some start, some stop =>
      if minGap ≤ (← difference stop start) then return [start.stored ++ '-' :: stop.stored]
      else return []
  | _, _ => return []

/-- The gaps between neighbours of a list. -/
def gaps (minGap : ℤ) (merged : List Occupied) : Checked (List Text) := do
  return (← (neighbours merged).mapM (gap minGap)).flatten

theorem gap_eq (minGap : ℤ) (a b : Occupied) :
    gap minGap [a, b] = .ok (FreeWindows.gap minGap a b) := by
  have hFirst : item [a, b] 0 = .ok a := rfl
  have hSecond : item [a, b] 1 = .ok b := rfl
  simp only [gap, FreeWindows.gap, hFirst, hSecond, ok_bind, difference_eq]
  cases a.stop with
  | none => rfl
  | some start =>
      cases b.start with
      | none => rfl
      | some stop =>
          dsimp only
          split <;> rfl

theorem gaps_eq (minGap : ℤ) (merged : List Occupied) :
    gaps minGap merged = .ok (FreeWindows.gaps minGap merged) := by
  fun_induction FreeWindows.gaps minGap merged with
  | case1 a b rest ih =>
      unfold gaps at ih ⊢
      rw [neighbours, List.mapM_cons, gap_eq, ok_bind]
      cases hRest : (neighbours (b :: rest)).mapM (gap minGap) with
      | error e =>
          rw [hRest] at ih
          cases ih
      | ok pieces =>
          rw [hRest] at ih
          rw [← Except.ok.inj ih]
          rfl
  | case2 merged hShort =>
      unfold gaps
      rw [neighbours]
      · rfl
      · exact hShort

/-- The free windows of merged spans. -/
def windows (minGap : ℤ) (merged : List Occupied) : Checked Text :=
  match merged with
  | [] => return anytime
  | first :: rest => do
      let last := rest.getLastD first
      return Text.join [';'] (before first ++ (← gaps minGap merged) ++ after last)

theorem windows_eq (minGap : ℤ) (merged : List Occupied) :
    windows minGap merged = .ok (FreeWindows.windows minGap merged) := by
  cases merged with
  | nil => rfl
  | cons first rest =>
      simp only [windows, gaps_eq, ok_bind]
      rfl

/-- The free windows of stored cells under constraints on the slot column. -/
def reply (minSeconds : ℤ) (cells : List Text) (constraints : List Constraint) :
    Checked (Except Rejection Text) :=
  match cells.mapM Occupied.ofStored with
  | .error e => return .error e
  | .ok spans => do
      match ← applyConstraints spans constraints with
      | .error e => return .error e
      | .ok occupied =>
          return .ok (← windows (minSeconds * nanosPerSecond) (Occupied.merge occupied))

theorem reply_eq (minSeconds : ℤ) (cells : List Text) (constraints : List Constraint) :
    reply minSeconds cells constraints = .ok (FreeWindows.reply minSeconds cells constraints) := by
  simp only [reply, FreeWindows.reply, FreeWindows.ofCells, applyConstraints_eq, windows_eq, ok_bind]
  cases cells.mapM Occupied.ofStored with
  | error e => rfl
  | ok spans =>
      dsimp only
      cases Occupied.applyConstraints spans constraints with
      | error e => rfl
      | ok occupied => rfl

end Checked

end TableTalk
