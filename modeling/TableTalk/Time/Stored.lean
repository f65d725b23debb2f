import TableTalk.Time.Style
import TableTalk.Text.Cut

/-!
# Stored form of instants and spans

Cells hold one canonical text per instant: the day and the minute in the style
of ISO 8601, with the second only when it is not zero.  For years of four digits
these texts sort by time.  A span is its two instants with a slash between them.

Reading back is a little more forgiving: blanks around are dropped, and a day
alone stands for its midnight.
-/

namespace TableTalk

namespace Date

/-- The stored text of a day. -/
def stored (d : Date) : Text :=
  Field.year d.year ++ '-' :: Field.twoDigits d.month ++ '-' :: Field.twoDigits d.day

end Date

namespace Instant

/-- The stored text of an instant. -/
def stored (t : Instant) : Text :=
  let minutes := t.date.stored ++ 'T' :: Field.twoDigits t.hour ++ ':' :: Field.twoDigits t.minute
  if t.shownSecond = 0 then minutes else minutes ++ ':' :: Field.twoDigits t.shownSecond

/-- The styles an instant is stored in. -/
def storedStyles : List InstantStyle :=
  [⟨.iso, .letter, .seconds⟩, ⟨.iso, .letter, .minutes⟩]

/-- Read a stored instant; a day alone means its midnight. -/
def ofStored? (t : Text) : Option Instant :=
  let t := Text.trim t
  (ofStyles? storedStyles t).orElse fun _ => (DayStyle.iso.read t).map midnight

end Instant

namespace Interval

/-- The stored text of a span. -/
def stored (i : Interval) : Text :=
  i.start.stored ++ '/' :: i.stop.stored

/-- The two ends of a stored span, as texts.  There must be exactly one slash. -/
def splitStored? (t : Text) : Option (Text × Text) :=
  match Text.cutAt (· == '/') t with
  | none => none
  | some (start, stop) =>
      if stop.contains '/' then none else some (Text.trim start, Text.trim stop)

/-- Read a stored span. -/
def ofStored? (t : Text) : Option Interval := do
  let (start, stop) ← splitStored? t
  return ⟨← Instant.ofStored? start, ← Instant.ofStored? stop⟩

end Interval

end TableTalk
