import Mathlib.Data.Char
import Mathlib.Data.List.Lex
import Mathlib.Order.Lattice
import Mathlib.Order.Monotone.Basic
import Mathlib.Tactic.SplitIfs
import TableTalk.Text.Blank

/-!
# Texts as bytes

The database keeps texts in UTF-8 and compares them byte by byte, the shorter one first
if it opens the longer one.  The encoding puts the leading bits of a character first and
marks longer codes by greater first bytes, so that it keeps the order of characters
(`Text.encoded_append_lt`).  Comparing texts by characters is therefore comparing their
bytes (`Text.bytes_lt_bytes_iff`).
-/

namespace TableTalk.Text

/-- The bytes of a character in UTF-8. -/
def encoded (c : Char) : List ℕ :=
  (String.utf8EncodeChar c).map UInt8.toNat

/-- The bytes of a text in UTF-8. -/
def bytes (t : Text) : List ℕ :=
  t.flatMap encoded

theorem toNat_lt (c : Char) : c.toNat < 1114112 := by
  rcases c.valid with hLow | ⟨-, hHigh⟩
  · exact lt_trans hLow (by decide)
  · exact hHigh

/-- A code has one to four bytes, with the leading bits in front. -/
theorem encoded_eq (c : Char) :
    encoded c =
      if c.toNat ≤ 127 then [c.toNat]
      else if c.toNat ≤ 2047 then [c.toNat / 64 + 192, c.toNat % 64 + 128]
      else if c.toNat ≤ 65535 then
        [c.toNat / 4096 + 224, c.toNat / 64 % 64 + 128, c.toNat % 64 + 128]
      else
        [c.toNat / 262144 + 240, c.toNat / 4096 % 64 + 128, c.toNat / 64 % 64 + 128,
          c.toNat % 64 + 128] := by
  have hBound := toNat_lt c
  have hCode : c.val.toNat = c.toNat := rfl
  unfold encoded String.utf8EncodeChar
  simp only [hCode]
  split_ifs <;> simp <;> omega

/-- A lesser character comes first, whatever follows. -/
theorem encoded_append_lt {c d : Char} (h : c < d) (x y : List ℕ) :
    encoded c ++ x < encoded d ++ y := by
  have hCode : c.toNat < d.toNat := h
  have hBound := toNat_lt d
  rw [encoded_eq, encoded_eq]
  generalize c.toNat = m at *
  generalize d.toNat = n at *
  -- Codes of one length compare by their leading bits, and a longer code opens with more.
  split_ifs <;> simp only [List.cons_append, List.nil_append, List.cons_lt_cons_iff] <;> omega

theorem encoded_ne_nil (c : Char) : encoded c ≠ [] := by
  rw [encoded_eq]
  split_ifs <;> exact List.cons_ne_nil _ _

theorem append_lt_append_iff (x : List ℕ) {y z : List ℕ} : x ++ y < x ++ z ↔ y < z := by
  induction x with
  | nil => rfl
  | cons n x ih => simp [ih]

theorem bytes_cons (c : Char) (t : Text) : bytes (c :: t) = encoded c ++ bytes t :=
  List.flatMap_cons

theorem bytes_lt_of_lt {a b : Text} (h : a < b) : a.bytes < b.bytes := by
  induction a generalizing b with
  | nil =>
      cases b with
      | nil => exact absurd h (List.lt_irrefl _)
      | cons d b =>
          obtain ⟨n, rest, hCode⟩ := List.exists_cons_of_ne_nil (encoded_ne_nil d)
          rw [bytes_cons, hCode]
          exact List.nil_lt_cons _ _
  | cons c a ih =>
      cases b with
      | nil => exact absurd h (List.not_lt_nil _)
      | cons d b =>
          rw [bytes_cons, bytes_cons]
          -- Where two characters differ their codes decide, whatever follows.
          rcases List.cons_lt_cons_iff.mp h with hFirst | ⟨rfl, hRest⟩
          · exact encoded_append_lt hFirst _ _
          · exact (append_lt_append_iff _).mpr (ih hRest)

theorem bytes_strictMono : StrictMono bytes := fun _ _ => bytes_lt_of_lt

/-- **Texts compare by bytes.**  The order of two texts, character by character, is that of
their bytes. -/
theorem bytes_lt_bytes_iff {a b : Text} : a.bytes < b.bytes ↔ a < b :=
  bytes_strictMono.lt_iff_lt

theorem bytes_le_bytes_iff {a b : Text} : a.bytes ≤ b.bytes ↔ a ≤ b :=
  bytes_strictMono.le_iff_le

theorem bytes_inj {a b : Text} : a.bytes = b.bytes ↔ a = b :=
  bytes_strictMono.injective.eq_iff

end TableTalk.Text
