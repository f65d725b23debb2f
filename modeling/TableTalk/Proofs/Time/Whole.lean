import TableTalk.Proofs.Time.Readers

/-!
# Whole seconds

Texts name instants to the second.  Whatever is read from a text is a whole second, where
the leap second after a minute counts as one, and moving such an instant by seconds gives
another.  Both ends of a typed span are therefore whole
(`Interval.isWhole_of_ofTyped?`).  Only the reference instant may have a fraction, and
only instants made from it do.
-/

namespace TableTalk

namespace Instant

/-- The instant is a whole second, which may be a leap second. -/
def IsWhole (t : Instant) : Prop :=
  t.nanos = 0 ∨ t.nanos = nanosPerSecond

theorem isWhole_midnight (d : Date) : (midnight d).IsWhole :=
  Or.inl rfl

theorem isWhole_of_ofClock? {d : Date} {hour minute second : Nat} {t : Instant}
    (h : ofClock? d hour minute second = some t) : t.IsWhole := by
  unfold ofClock? at h
  split at h
  · rw [← Option.some.inj h]
    exact Or.inl rfl
  · split at h
    · rw [← Option.some.inj h]
      exact Or.inr rfl
    · cases h

/-- Moving a whole second gives a whole second, which is not a leap second if it moves. -/
theorem IsWhole.of_advance {t t' : Instant} {seconds : Int} (ht : t.IsWhole)
    (h : t.advance seconds = some t') : t'.IsWhole := by
  unfold advance at h
  split at h
  · rwa [← Option.some.inj h]
  · obtain ⟨d, -, rfl⟩ := Option.map_eq_some_iff.mp h
    refine Or.inl ?_
    rcases ht with hZero | hLeap
    · change t.nanos % nanosPerSecond = 0
      rw [hZero, Nat.zero_mod]
    · change t.nanos % nanosPerSecond = 0
      rw [hLeap, Nat.mod_self]

theorem isWhole_of_read {style : InstantStyle} {text : Text} {t : Instant}
    (h : style.read text = some t) : t.IsWhole := by
  simp only [InstantStyle.read, Option.bind_eq_bind, Option.bind_eq_some_iff, Prod.exists] at h
  obtain ⟨date, rest, -, rest', -, clock, -, hClock⟩ := h
  exact isWhole_of_ofClock? hClock

theorem isWhole_of_ofStyles? {styles : List InstantStyle} {text : Text} {t : Instant}
    (h : ofStyles? styles text = some t) : t.IsWhole := by
  obtain ⟨style, -, hRead⟩ := exists_of_ofStyles? h
  exact isWhole_of_read hRead

theorem isWhole_of_ofStored? {text : Text} {t : Instant} (h : ofStored? text = some t) :
    t.IsWhole := by
  rcases cases_of_ofStored? h with hStyles | ⟨d, -, rfl⟩
  · exact isWhole_of_ofStyles? hStyles
  · exact isWhole_midnight d

theorem isWhole_of_orWithYear {year : Int} {styles : List InstantStyle} {text : Text}
    {t : Instant} (h : Typed.orWithYear year (ofStyles? styles) text = some t) : t.IsWhole := by
  rcases Typed.cases_of_orWithYear h with hPlain | ⟨dated, -, hDated⟩
  · exact isWhole_of_ofStyles? hPlain
  · exact isWhole_of_ofStyles? hDated

theorem isWhole_of_hour? {now t : Instant} {text : Text} (h : Typed.hour? now text = some t) :
    t.IsWhole := by
  simp only [Typed.hour?, Option.bind_eq_bind, Option.bind_eq_some_iff, Prod.exists] at h
  obtain ⟨_, _, _, -, date, -, hour, -, hClock⟩ := h
  exact isWhole_of_ofClock? hClock

end Instant

namespace Interval

theorem isWhole_of_startingAt {start : Instant} {seconds : Int} {i : Interval}
    (hStart : start.IsWhole) (h : startingAt start seconds = some i) :
    i.start.IsWhole ∧ i.stop.IsWhole := by
  obtain ⟨stop, hStop, rfl⟩ := Option.map_eq_some_iff.mp h
  exact ⟨hStart, hStart.of_advance hStop⟩

/-- Both ends of a typed span are whole seconds. -/
theorem isWhole_of_ofTyped? {now : Instant} {text : Text} {i : Interval}
    (h : ofTyped? now text = some i) : i.start.IsWhole ∧ i.stop.IsWhole := by
  rcases cases_of_ofTyped? h with hStored | ⟨start, hMinute, hSpan⟩ | ⟨start, hHour, hSpan⟩ |
    ⟨date, -, hSpan⟩
  · obtain ⟨_, _, -, hStart, hStop⟩ := exists_of_ofStored? hStored
    exact ⟨Instant.isWhole_of_ofStored? hStart, Instant.isWhole_of_ofStored? hStop⟩
  · exact isWhole_of_startingAt (Instant.isWhole_of_orWithYear hMinute) hSpan
  · exact isWhole_of_startingAt (Instant.isWhole_of_hour? hHour) hSpan
  · exact isWhole_of_startingAt (Instant.isWhole_midnight date) hSpan

end Interval

end TableTalk
