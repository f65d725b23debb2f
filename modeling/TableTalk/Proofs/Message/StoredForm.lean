import TableTalk.Proofs.Message.AddPairs
import TableTalk.Proofs.Store.Rows
import TableTalk.Proofs.Time.Canonical

/-!
# What messages store is in stored form

A value is typed in many forms and stored in one.  `Column.Keeps` says what that form is
for each type of column, by the readers that the stored text is meant for:

* an instant is read back, and its text is the text that was read;
* a span is read as occupied time, and the texts of its two ends make up the cell;
* a number has no blanks around it and is finite;
* a choice is one of the options as they are spelled.

Every value that a column accepts has the form of that column (`Column.keeps_of_normalize`),
so every value of every insert has the form of the one column it is stored under
(`Handling.stored_form_of_insert`).  The reference instant may have a fraction of a second
or lie in a leap second; its text shows the second only, and that is what is read back
(`Instant.stored_wholeSecond`).
-/

namespace TableTalk

/-- The text is in the form that values of the column are stored in. -/
def Column.Keeps (c : Column) (value : Text) : Prop :=
  match c.type with
  | .text => True
  | .number => Text.trim value = value ∧ ∃ d, Decimal.read value = some d ∧ d.isFinite = true
  | .date | .dateTime | .time => ∃ t, Instant.ofStored? value = some t ∧ t.stored = value
  | .dateRange =>
      ∃ start stop, Occupied.ofStored value = .ok (.between start stop) ∧
        start.stored ++ '/' :: stop.stored = value
  | .multipleChoice => value ∈ c.options

namespace Value

variable {now : Instant} {input value : Text}

theorem keeps_of_number? (h : number? input = some value) :
    Text.trim value = value ∧ ∃ d, Decimal.read value = some d ∧ d.isFinite = true := by
  dsimp only [number?] at h
  split at h
  · rename_i d hRead
    split at h
    · rename_i hFinite
      obtain rfl := Option.some.inj h
      exact ⟨Text.trim_trim input, d, hRead, hFinite⟩
    · cases h
  · cases h

/-- Whatever instant was meant, its text is read back as that text. -/
theorem keeps_of_instant? (h : instant? now input = some value) :
    ∃ t, Instant.ofStored? value = some t ∧ t.stored = value := by
  -- The value is the text of an instant that was typed, or of the start of a span.
  have hStored : ∃ t : Instant, t.stored = value := by
    unfold instant? at h
    split at h
    · rename_i t _
      exact ⟨t, Option.some.inj h⟩
    · obtain ⟨i, -, rfl⟩ := Option.map_eq_some_iff.mp h
      exact ⟨i.start, rfl⟩
  obtain ⟨t, rfl⟩ := hStored
  exact ⟨t.wholeSecond, t.ofStored?_stored, t.stored_wholeSecond⟩

theorem keeps_of_span {i : Interval} (h : Interval.ofTyped? now input = some i) :
    ∃ start stop, Occupied.ofStored i.stored = .ok (.between start stop) ∧
      start.stored ++ '/' :: stop.stored = i.stored :=
  ⟨i.start, i.stop, Occupied.ofStored_of_ofTyped? h, rfl⟩

end Value

/-- What a column accepts is in the form of the column. -/
theorem Column.keeps_of_normalize {now : Instant} {c : Column} {input value : Text}
    (h : Value.normalize now c input = .ok value) : c.Keeps value := by
  have hStored := Value.stored?_of_normalize h
  unfold Value.stored? at hStored
  unfold Keeps
  cases hType : c.type with
  | text => trivial
  | number =>
      rw [hType] at hStored
      exact Value.keeps_of_number? hStored
  | date | dateTime | time =>
      rw [hType] at hStored
      exact Value.keeps_of_instant? hStored
  | dateRange =>
      rw [hType] at hStored
      obtain ⟨i, hSpan, rfl⟩ := Option.map_eq_some_iff.mp hStored
      exact Value.keeps_of_span hSpan
  | multipleChoice =>
      rw [hType] at hStored
      exact List.mem_of_find?_eq_some hStored

namespace Handling

/-- **Messages store values in stored form.**  On every host, whatever the message and the
instant it is read at: in every insert each value stands under the storage name of a column
that messages may write, the only one of that name, and is in the form of that column. -/
theorem stored_form_of_insert {σ : Type} (limits : Limits) (now : Instant) (message : Message)
    (host : Host σ) (s : σ) {table : Table} {values : RowValues} {sender : Text}
    (hInsert : .insert table values sender ∈ ((handle limits now message).run host s).requests)
    (hDistinct : (table.columns.map Column.storageName).Nodup) :
    ∀ v ∈ values, ∃ c ∈ table.columns, c.storageName = v.1 ∧ c.writable = true ∧ c.Keeps v.2 ∧
      ∀ d ∈ table.columns, d.storageName = v.1 → d = c := by
  rw [Program.requests_run, List.mem_map] at hInsert
  obtain ⟨x, hx, hRequest⟩ := hInsert
  obtain ⟨shortcuts, -, -, hRow⟩ := row_of_insert (Program.follows_run host _ s) hx hRequest
  intro v hv
  obtain ⟨c, hc, hName, hWritable, input, hValue⟩ := (Add.built_of_row hRow).ofColumn v hv
  refine ⟨c, hc, hName, hWritable, Column.keeps_of_normalize hValue, fun d hd hSame => ?_⟩
  exact List.inj_on_of_nodup_map hDistinct hd hc (hSame.trans hName.symm)

/-- A log with a column of each kind, one of them closed to messages. -/
def log : Table :=
  ⟨['l', 'o', 'g'], ['l', 'o', 'g'],
    [{ storageName := ['d'], displayName := ['D'], type := .dateTime },
      { storageName := ['s'], displayName := ['S'], type := .dateRange },
      { storageName := ['n'], displayName := ['N'], type := .number },
      { storageName := ['c'], displayName := ['C'], type := .multipleChoice,
        options := ["Up".toList, "Down".toList] },
      { storageName := ['t'], displayName := ['T'], type := .text, writable := false }], none⟩

/-- The middle of a leap second, the last one of the year 10000. -/
def leapNow : Instant :=
  ⟨⟨10000, 12, 31, by decide⟩, 86399, 1500000000, by decide, by decide⟩

/-- An entry of now, tomorrow, a number and a choice, and of a value that is left out. -/
def entry : Message :=
  ⟨['7'], "@log +D now +S tmw +N  2.50 +C uP +T x".toList⟩

/-- What is inserted of the entry. -/
def entryValues : RowValues :=
  [(['c'], "Up".toList), (['d'], "+10000-12-31T23:59:60".toList), (['n'], "2.50".toList),
    (['s'], "+10001-01-01T00:00/+10001-01-02T00:00".toList)]

theorem entry_inserted : .insert log entryValues ['7'] ∈
    ((handle {} leapNow entry).run (Host.ofTable log false []) ()).requests := by
  decide +kernel

/-- In a leap second and in years of five digits values are in stored form. -/
theorem stored_form_of_entry :
    .insert log entryValues ['7'] ∈
        ((handle {} leapNow entry).run (Host.ofTable log false []) ()).requests ∧
      (log.columns.map Column.storageName).Nodup ∧
      ∀ v ∈ entryValues, ∃ c ∈ log.columns, c.storageName = v.1 ∧ c.writable = true ∧
        c.Keeps v.2 ∧ ∀ d ∈ log.columns, d.storageName = v.1 → d = c :=
  have hDistinct : (log.columns.map Column.storageName).Nodup := by decide
  ⟨entry_inserted, hDistinct,
    stored_form_of_insert {} leapNow entry (Host.ofTable log false []) () entry_inserted hDistinct⟩

end Handling

end TableTalk
