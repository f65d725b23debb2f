import TableTalk.Slot.Occupied
import TableTalk.Proofs.Text.Bytes
import TableTalk.Proofs.Text.Words
import TableTalk.Proofs.Time.RoundTrip

/-!
# The stored text as a canonical form

What a cell holds stands for a time, whoever looks at it.  Three results say so.

* Reading a stored instant gives the instant up to the second that its clock shows
  (`Instant.stored_read_back`).  That second is the last whole one that is not later,
  a leap second being one of its own, and no two whole seconds share a text.
* A stored span is read by three readers: that of cells, that of typed spans and that of
  occupied time.  Each gives back the two ends (`Interval.stored_read_alike`), also with
  blanks around, whichever end comes first and whatever the reference instant.  The typed
  forms play no part in this: a text that is read as a cell is never tried as anything else
  (`Interval.ofTyped?_of_ofStored?`).
* In years of four digits the bytes of two texts compare as the instants do
  (`Instant.bytes_in_time_order`), also where one text opens the other, and where a leap
  second meets the next minute.
-/

namespace TableTalk

/-! ### Whole seconds -/

namespace Instant

variable {s t : Instant}

theorem isWhole_wholeSecond (t : Instant) : t.wholeSecond.IsWhole := by
  have hNanos := t.nanos_lt_two_seconds
  show t.nanos / nanosPerSecond * nanosPerSecond = 0 ∨
    t.nanos / nanosPerSecond * nanosPerSecond = nanosPerSecond
  simp only [nanosPerSecond] at *
  omega

theorem wholeSecond_le (t : Instant) : t.wholeSecond ≤ t := by
  have hNanos : t.nanos / nanosPerSecond * nanosPerSecond ≤ t.nanos := Nat.div_mul_le_self _ _
  show (t.date.dayNumber * secondsPerDay + t.second) * (2 * nanosPerSecond) +
      (t.nanos / nanosPerSecond * nanosPerSecond : Nat) ≤ t.rank
  unfold rank
  omega

/-- No whole second lies between an instant and its own whole second. -/
theorem le_wholeSecond (hs : s.IsWhole) (h : s ≤ t) : s ≤ t.wholeSecond := by
  rw [← not_lt, ← rank_lt_rank, rank_lt_iff] at h ⊢
  have hs' := s.nanos_lt_two_seconds
  have ht' := t.nanos_lt_two_seconds
  unfold IsWhole at hs
  -- Within one second of the day only the fractions differ, and that of `s` is 0 or a second.
  simp only [wholeSecond, nanosPerSecond] at *
  omega

/-- The whole second of an instant is the last one that is not later. -/
theorem isGreatest_wholeSecond (t : Instant) :
    IsGreatest {s : Instant | s.IsWhole ∧ s ≤ t} t.wholeSecond :=
  ⟨⟨t.isWhole_wholeSecond, t.wholeSecond_le⟩, fun _ hs => le_wholeSecond hs.1 hs.2⟩

/-- Two instants have one text exactly when their clocks show the same second. -/
theorem stored_eq_stored_iff {a b : Instant} :
    a.stored = b.stored ↔ a.wholeSecond = b.wholeSecond := by
  rw [← stored_wholeSecond a, ← stored_wholeSecond b]
  exact stored_inj a.isWhole_wholeSecond b.isWhole_wholeSecond

/-- **Stored instants are read back.**  The text of an instant is read as its whole second,
the last one that is not later; so two texts are the same exactly if the whole seconds
are, and whole seconds are told apart by their texts. -/
theorem stored_read_back :
    (∀ t : Instant, ofStored? t.stored = some t.wholeSecond ∧
      IsGreatest {s : Instant | s.IsWhole ∧ s ≤ t} t.wholeSecond) ∧
    (∀ a b : Instant, a.stored = b.stored ↔ a.wholeSecond = b.wholeSecond) ∧
    ∀ a b : Instant, a.IsWhole → b.IsWhole → (a.stored = b.stored ↔ a = b) :=
  ⟨fun t => ⟨t.ofStored?_stored, t.isGreatest_wholeSecond⟩, fun _ _ => stored_eq_stored_iff,
    fun _ _ => stored_inj⟩

/-- The first representable instant. -/
def earliest : Instant :=
  .midnight ⟨minYear, 1, 1, by decide⟩

/-- A leap second on the last representable day. -/
def lateLeapSecond : Instant :=
  ⟨⟨maxYear, 12, 31, by decide⟩, 86339, nanosPerSecond, by decide, by decide⟩

/-- Half a second into that leap second. -/
def lateFraction : Instant :=
  ⟨⟨maxYear, 12, 31, by decide⟩, 86339, 1500000000, by decide, by decide⟩

/-- At either end of the representable years the year is written with a sign. -/
theorem stored_read_back_farthest :
    lateFraction.stored = "+262142-12-31T23:58:60".toList ∧
    ofStored? lateFraction.stored = some lateLeapSecond ∧
    earliest.stored = "-262143-01-01T00:00".toList ∧
    (earliest.stored = lateLeapSecond.stored ↔ earliest = lateLeapSecond) :=
  ⟨by decide +kernel, (stored_read_back.1 lateFraction).1, by decide +kernel,
    stored_read_back.2.2 earliest lateLeapSecond (Or.inl rfl) (Or.inr rfl)⟩

end Instant

/-! ### One meaning for all readers -/

namespace Occupied

variable {i : Interval} {cell input : Text} {now : Instant}

/-- A cell that is a stored span is read as the time that the span occupies. -/
theorem ofStored_of_interval (h : Interval.ofStored? cell = some i) :
    ofStored cell = .ok (between i.start i.stop) := by
  rw [ofStored, h]

theorem ofStored_stored (hStart : i.start.IsWhole) (hStop : i.stop.IsWhole) :
    ofStored i.stored = .ok (between i.start i.stop) :=
  ofStored_of_interval (Interval.ofStored?_stored hStart hStop)

/-- What is stored of a typed span occupies that span. -/
theorem ofStored_of_ofTyped? (h : Interval.ofTyped? now input = some i) :
    ofStored i.stored = .ok (between i.start i.stop) :=
  ofStored_stored (Interval.isWhole_of_ofTyped? h).1 (Interval.isWhole_of_ofTyped? h).2

end Occupied

namespace Interval

variable {i : Interval} {lead t gap : Text} {now : Instant}

/-- Blanks around a pair are left out with those around its ends. -/
theorem splitStored?_surrounded (hLead : Text.Blank lead) (hGap : Text.Blank gap) (t : Text) :
    splitStored? (lead ++ (t ++ gap)) = splitStored? t := by
  have hNoSlash : ∀ {u : Text}, Text.Blank u → ∀ x ∈ u, (x == '/') = false := by
    intro u hu x hx
    rw [beq_eq_false_iff_ne]
    rintro rfl
    exact hu.not_mem (by decide) hx
  have hSlash : '/' ∉ gap := hGap.not_mem (by decide)
  unfold splitStored?
  rw [Text.cutAt_append_left (hNoSlash hLead), Text.cutAt_append_right (hNoSlash hGap)]
  cases Text.cutAt (· == '/') t with
  | none => rfl
  | some sides => simp [hSlash, Text.trim_blank_append hLead, Text.trim_append_blank hGap]

theorem ofStored?_surrounded (hLead : Text.Blank lead) (hGap : Text.Blank gap) (t : Text) :
    ofStored? (lead ++ (t ++ gap)) = ofStored? t := by
  unfold ofStored?
  rw [splitStored?_surrounded hLead hGap]

theorem ofStored?_trim (t : Text) : ofStored? (Text.trim t) = ofStored? t := by
  obtain ⟨lead, gap, hLead, hGap, ht⟩ := Text.exists_trim t
  calc ofStored? (Text.trim t) = ofStored? (lead ++ (Text.trim t ++ gap)) :=
        (ofStored?_surrounded hLead hGap _).symm
    _ = ofStored? t := by rw [← ht]

/-- Typed spans are first tried as stored ones. -/
theorem ofTyped?_of_ofStored? (h : ofStored? t = some i) (now : Instant) :
    ofTyped? now t = some i := by
  dsimp only [ofTyped?]
  rw [ofStored?_trim, h]

/-- **Stored spans are read alike.**  The text of a span of whole seconds, with or without
blanks around it, is read as that span by the reader of cells, by the reader of typed spans
at any reference instant and as occupied time. -/
theorem stored_read_alike (hStart : i.start.IsWhole) (hStop : i.stop.IsWhole)
    (hLead : Text.Blank lead) (hGap : Text.Blank gap) (now : Instant) :
    ofStored? (lead ++ (i.stored ++ gap)) = some i ∧
    ofTyped? now (lead ++ (i.stored ++ gap)) = some i ∧
    Occupied.ofStored (lead ++ (i.stored ++ gap)) = .ok (.between i.start i.stop) := by
  have hCell : ofStored? (lead ++ (i.stored ++ gap)) = some i := by
    rw [ofStored?_surrounded hLead hGap, ofStored?_stored hStart hStop]
  exact ⟨hCell, ofTyped?_of_ofStored? hCell now, Occupied.ofStored_of_interval hCell⟩

/-- Nearly all representable time, backwards: the end is before the start, and both years
are written with a sign. -/
def backwards : Interval :=
  ⟨.lateLeapSecond, .earliest⟩

/-- With blanks of three kinds around, one of them wide. -/
theorem stored_read_alike_backwards :
    backwards.stored = "+262142-12-31T23:58:60/-262143-01-01T00:00".toList ∧
    ofStored? (['\t', '\u3000'] ++ (backwards.stored ++ [' '])) = some backwards ∧
    ofTyped? .earliest (['\t', '\u3000'] ++ (backwards.stored ++ [' '])) = some backwards ∧
    Occupied.ofStored (['\t', '\u3000'] ++ (backwards.stored ++ [' '])) =
      .ok (.between backwards.start backwards.stop) :=
  ⟨by decide +kernel, stored_read_alike (Or.inr rfl) (Or.inl rfl)
    (by simp [Text.Blank, Text.isBlank]) (by simp [Text.Blank, Text.isBlank]) .earliest⟩

end Interval

/-! ### The order of bytes -/

namespace Instant

/-- **Stored instants sort by time.**  In years of four digits the texts of whole seconds,
leap seconds included, compare byte by byte as the instants compare in time. -/
theorem bytes_in_time_order {a b : Instant} (ha : a.IsWhole) (hb : b.IsWhole)
    (hYearA : a.HasFourDigitYear) (hYearB : b.HasFourDigitYear) :
    (a.stored.bytes < b.stored.bytes ↔ a < b) ∧ (a.stored.bytes = b.stored.bytes ↔ a = b) := by
  constructor
  · rw [Text.bytes_lt_bytes_iff]
    exact stored_lt_stored_iff hb hYearA hYearB
  · rw [Text.bytes_inj]
    exact stored_inj ha hb

/-- The first day of April. -/
def aprilDay : Date :=
  ⟨2025, 4, 1, by decide⟩

/-- A minute, the leap second at its end and the next minute. -/
def aprilMinutes : List Instant :=
  [⟨aprilDay, 36120, 0, by decide, by decide⟩,
    ⟨aprilDay, 36179, nanosPerSecond, by decide, by decide⟩,
    ⟨aprilDay, 36180, 0, by decide, by decide⟩]

/-- The first text opens the second, and the third is shorter than the second. -/
theorem bytes_in_time_order_april :
    aprilMinutes.map stored = ["2025-04-01T10:02".toList, "2025-04-01T10:02:60".toList,
      "2025-04-01T10:03".toList] ∧
    ∀ a ∈ aprilMinutes, ∀ b ∈ aprilMinutes, (a.stored.bytes < b.stored.bytes ↔ a < b) := by
  have hWhole : ∀ t ∈ aprilMinutes, t.IsWhole := by
    unfold IsWhole
    decide
  have hYear : ∀ t ∈ aprilMinutes, t.HasFourDigitYear := by
    unfold HasFourDigitYear
    decide
  refine ⟨by decide +kernel, fun a ha b hb => ?_⟩
  exact (bytes_in_time_order (hWhole a ha) (hWhole b hb) (hYear a ha) (hYear b hb)).1

end Instant

end TableTalk
