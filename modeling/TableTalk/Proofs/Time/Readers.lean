import TableTalk.Time.Typed

/-!
# What a text was read as

Readers of instants and spans try one form after another.  A text that was read has one of
the forms, and these lemmas name the form together with the reader it came from.  They
are stated of successful readings only; which form is tried first is left to the
definitions.
-/

namespace TableTalk

theorem Instant.exists_of_ofStyles? {styles : List InstantStyle} {t : Text} {i : Instant}
    (h : ofStyles? styles t = some i) : ∃ style ∈ styles, style.read t = some i :=
  List.exists_of_findSome?_eq_some h

theorem Date.exists_of_ofStyles? {styles : List DayStyle} {t : Text} {d : Date}
    (h : ofStyles? styles t = some d) : ∃ style ∈ styles, style.read t = some d :=
  List.exists_of_findSome?_eq_some h

/-- A text is read as it stands or with the reference year written in. -/
theorem Typed.cases_of_orWithYear {α : Type} {year : Int} {read : Text → Option α} {t : Text}
    {x : α} (h : orWithYear year read t = some x) :
    read t = some x ∨ ∃ dated, withYear? year t = some dated ∧ read dated = some x := by
  unfold orWithYear at h
  cases hRead : read t with
  | some y =>
      rw [hRead] at h
      exact Or.inl h
  | none =>
      rw [hRead] at h
      exact Or.inr (Option.bind_eq_some_iff.mp h)

/-! ### Stored texts -/

/-- A stored instant is written to the minute or the second, or is a day alone. -/
theorem Instant.cases_of_ofStored? {t : Text} {i : Instant} (h : ofStored? t = some i) :
    ofStyles? storedStyles (Text.trim t) = some i ∨
      ∃ d, DayStyle.iso.read (Text.trim t) = some d ∧ midnight d = i := by
  dsimp only [ofStored?] at h
  cases hStyles : ofStyles? storedStyles (Text.trim t) with
  | some t' =>
      rw [hStyles] at h
      exact Or.inl h
  | none =>
      rw [hStyles] at h
      exact Or.inr (Option.map_eq_some_iff.mp h)

/-- A stored span is two stored instants with a slash between them. -/
theorem Interval.exists_of_ofStored? {t : Text} {i : Interval} (h : ofStored? t = some i) :
    ∃ before after, t = before ++ '/' :: after ∧
      Instant.ofStored? (Text.trim before) = some i.start ∧
      Instant.ofStored? (Text.trim after) = some i.stop := by
  simp only [ofStored?, Option.bind_eq_bind, Option.bind_eq_some_iff, Prod.exists,
    Option.pure_def, Option.some.injEq] at h
  obtain ⟨start, stop, hSplit, a, hStart, b, hStop, rfl⟩ := h
  unfold splitStored? at hSplit
  split at hSplit
  · cases hSplit
  · rename_i before after hCut
    split at hSplit
    · cases hSplit
    · simp only [Option.some.injEq, Prod.mk.injEq] at hSplit
      obtain ⟨rfl, rfl⟩ := hSplit
      obtain ⟨c, hc, rfl, -⟩ := Text.exists_of_cutAt hCut
      obtain rfl : c = '/' := eq_of_beq hc
      exact ⟨before, after, rfl, hStart, hStop⟩

/-! ### Typed texts -/

/-- A typed instant is written to the second, or is `now`, moved or not. -/
theorem Instant.cases_of_ofTyped? {now i : Instant} {t : Text} (h : ofTyped? now t = some i) :
    Typed.orWithYear now.date.year (ofStyles? Typed.secondStyles) (Text.trim t) = some i ∨
      ∃ rest, Typed.afterNow? (Text.trim t) = some rest ∧
        (rest = [] ∧ now = i ∨ Typed.moved? now rest = some i) := by
  dsimp only [ofTyped?] at h
  split at h
  · rename_i instant hSecond
    exact Or.inl (hSecond.trans h)
  · split at h
    · rename_i hNow
      exact Or.inr ⟨[], hNow, Or.inl ⟨rfl, Option.some.inj h⟩⟩
    · rename_i rest _ hNow
      exact Or.inr ⟨rest, hNow, Or.inr h⟩
    · cases h

/-- A typed span is a stored pair, a minute, an hour or a day. -/
theorem Interval.cases_of_ofTyped? {now : Instant} {t : Text} {i : Interval}
    (h : ofTyped? now t = some i) :
    ofStored? (Text.trim t) = some i ∨
    (∃ start, Typed.orWithYear now.date.year (Instant.ofStyles? Typed.minuteStyles)
      (Text.trim t) = some start ∧ startingAt start 60 = some i) ∨
    (∃ start, Typed.hour? now (Text.trim t) = some start ∧ startingAt start 3600 = some i) ∨
    ∃ date, Typed.day? now (Text.trim t) = some date ∧
      startingAt (Instant.midnight date) 86400 = some i := by
  dsimp only [ofTyped?] at h
  split at h
  · rename_i pair hStored
    exact Or.inl (hStored.trans h)
  · split at h
    · rename_i start hMinute
      exact Or.inr (Or.inl ⟨start, hMinute, h⟩)
    · split at h
      · rename_i start hHour
        exact Or.inr (Or.inr (Or.inl ⟨start, hHour, h⟩))
      · split at h
        · rename_i date hDay
          exact Or.inr (Or.inr (Or.inr ⟨date, hDay, h⟩))
        · cases h

end TableTalk
