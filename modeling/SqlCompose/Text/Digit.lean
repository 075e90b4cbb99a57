/-
  Text.Digit — the decimal digits of every script.

  Unicode encodes the decimal digits of a script as ten code points in a row,
  from zero to nine, so a digit is told by the zero of its row.

  * `digitZeros` lists the zeros of the rows;
  * `digit? c` is the value of the digit `c`, at most nine by `le_nine_of_digit?`;
  * `digit?_of_isDigit` gives the values of the ten digits of ASCII.
-/
import SqlCompose.Text

namespace SqlCompose.Text

/-- The code points of the zeros of all rows of decimal digits, in ascending
    order. -/
def digitZeros : List Nat :=
  [
    0x30, 0x660, 0x6F0, 0x7C0, 0x966, 0x9E6, 0xA66, 0xAE6, 0xB66, 0xBE6, 0xC66, 0xCE6, 0xD66,
    0xDE6, 0xE50, 0xED0, 0xF20, 0x1040, 0x1090, 0x17E0, 0x1810, 0x1946, 0x19D0, 0x1A80, 0x1A90,
    0x1B50, 0x1BB0, 0x1C40, 0x1C50, 0xA620, 0xA8D0, 0xA900, 0xA9D0, 0xA9F0, 0xAA50, 0xABF0,
    0xFF10, 0x104A0, 0x10D30, 0x11066, 0x110F0, 0x11136, 0x111D0, 0x112F0, 0x11450, 0x114D0,
    0x11650, 0x116C0, 0x11730, 0x118E0, 0x11950, 0x11C50, 0x11D50, 0x11DA0, 0x16A60, 0x16AC0,
    0x16B50, 0x1D7CE, 0x1D7D8, 0x1D7E2, 0x1D7EC, 0x1D7F6, 0x1E140, 0x1E2F0, 0x1E950, 0x1FBF0
  ]

/-- The value of a decimal digit of any script; `none` for every other character. -/
def digit? (c : Char) : Option Nat :=
  (digitZeros.find? fun z => decide (z ≤ c.toNat ∧ c.toNat ≤ z + 9)).map (c.toNat - ·)

/-- A digit is worth at most nine. -/
theorem le_nine_of_digit? {c : Char} {n : Nat} (h : digit? c = some n) : n ≤ 9 := by
  obtain ⟨z, hz, rfl⟩ := Option.map_eq_some_iff.1 h
  have := List.find?_some hz
  simp only [decide_eq_true_eq] at this
  omega

/-- The digits of ASCII count from the code point of zero. -/
theorem digit?_of_isDigit {c : Char} (h : c.isDigit = true) :
    digit? c = some (c.toNat - '0'.toNat) := by
  have hc : 0x30 ≤ c.toNat ∧ c.toNat ≤ 0x30 + 9 := by
    simp only [Char.isDigit, Bool.and_eq_true, decide_eq_true_eq, ge_iff_le, UInt32.le_iff_toNat_le] at h
    exact h
  have hfind : digitZeros.find? (fun z => decide (z ≤ c.toNat ∧ c.toNat ≤ z + 9)) = some 0x30 := by
    unfold digitZeros
    rw [List.find?_cons_of_pos (by simpa using hc)]
  rw [digit?, hfind]
  rfl

example : digit? '7' = some 7 := by decide
example : digit? '٣' = some 3 := by decide
example : digit? '²' = none := by decide

end SqlCompose.Text
