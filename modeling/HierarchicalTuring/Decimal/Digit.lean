/-! # Decimal digits

* `Digit.char` and `Digit.ofChar` lead from digits to characters and back (`Digit.ofChar_char`,
  `Digit.char_ofChar`).
* `decimalDigits` is a number as text and `digitsOf` as digits; `numberOf` is the number that digits
  stand for, and `lastDigits` cuts a number to a count of digits, with zeros in front if it is
  shorter.
-/

set_option autoImplicit false

namespace HierarchicalTuring

/-- A digit in decimal notation. -/
abbrev Digit := Fin 10

namespace Digit

def char (d : Digit) : Char :=
  Nat.digitChar d

/-- The digit that a character stands for, if it is one. -/
def ofChar (c : Char) : Digit :=
  Fin.ofNat 10 (c.toNat - '0'.toNat)

theorem ofChar_char (d : Digit) : ofChar (char d) = d := by
  revert d; decide

theorem char_ofChar {c : Char} (h : c.isDigit = true) : char (ofChar c) = c := by
  have hall : ∀ n : Fin 10, char (ofChar (Char.ofNat (48 + n.val))) = Char.ofNat (48 + n.val) := by
    decide
  have hc : 48 ≤ c.toNat ∧ c.toNat ≤ 57 := by
    simpa [Char.isDigit, UInt32.le_iff_toNat_le] using h
  have hn := hall ⟨c.toNat - 48, by omega⟩
  rwa [show 48 + (c.toNat - 48) = c.toNat by omega, Char.ofNat_toNat] at hn

end Digit

/-- A number in decimal notation. -/
def decimalDigits (n : Nat) : List Char :=
  Nat.toDigits 10 n

/-- The digits of a number in decimal notation, of which there is at least one. -/
def digitsOf (n : Nat) : List Digit :=
  (decimalDigits n).map Digit.ofChar

/-- The number that digits stand for. -/
def numberOf (digits : List Digit) : Nat :=
  digits.foldl (fun (n : Nat) digit => 10 * n + digit.val) 0

/-- The number that the characters of digits stand for. -/
def numberOfChars (cs : List Char) : Nat :=
  numberOf (cs.map Digit.ofChar)

/-- The last `count` digits of a number, zeros before its first one. -/
def lastDigits (n : Nat) : Nat → List Digit
  | 0 => []
  | count + 1 => lastDigits (n / 10) count ++ [Fin.ofNat 10 n]

theorem length_lastDigits (n count : Nat) : (lastDigits n count).length = count := by
  induction count generalizing n with
  | zero => rfl
  | succ count ih => simp [lastDigits, ih]

end HierarchicalTuring
