import HierarchicalTuring.Decimal.Arithmetic
import HierarchicalTuring.Decimal.Shortest
import HierarchicalTuring.Json.Numeral

/-! # Doubles as numerals

* `Numeral.toBinary64?` evaluates a numeral. Its leading digits, as many as make a whole number of
  64 bits, are scaled by a power of ten in double arithmetic (`Binary64.scaled?`). Where the digits
  and the power of ten are doubles themselves, that is the nearest double; it may be a neighbour of
  it elsewhere.
* `Numeral.ofBinary64` writes a finite double with the fewest digits that tell it apart:
  positionally, with a digit on both sides of the point, while the power of ten of the leading digit
  is from -5 to 15, and otherwise with one digit before the point and a power of ten.
-/

set_option autoImplicit false

namespace HierarchicalTuring.Json

namespace Numeral

/-! ## Reading -/

/-- The greatest number that digits are gathered into. -/
def maxSignificand : Nat := Nat.pow 2 64 - 1

/-- Appends digits to a number as long as it stays in its range, and counts them. -/
def appendDigits (significand : Nat) : List Digit → Nat × Nat
  | [] => (significand, 0)
  | digit :: rest =>
    if 10 * significand + digit ≤ maxSignificand then
      let (significand, count) := appendDigits (10 * significand + digit) rest
      (significand, count + 1)
    else (significand, 0)

/-- The digits that count, as a number, and its power of ten. Digits before the point that do not
fit raise the power by one each. The digits behind the point come after those that fit, and the
first one that does not fit ends them. -/
def significand (n : Numeral) : Nat × Int :=
  let digits := digitsOf n.whole
  let (before, count) := appendDigits 0 digits
  let (all, behind) := appendDigits before n.fraction
  (all, (digits.length - count : Nat) - (behind : Int) + n.exponent.getD 0)

/-- The double that a numeral stands for, unless it is too large. -/
def toBinary64? (n : Numeral) : Option Binary64 :=
  let (significand, exponent) := n.significand
  Binary64.scaled? n.negative significand exponent

/-! ## Writing -/

/-- A decimal around a point. -/
def positional (d : Decimal) : Numeral :=
  if 0 ≤ d.exponent then
    ⟨d.negative, d.coefficient * Nat.pow 10 d.exponent.toNat, lastDigits 0 1, none⟩
  else
    let places := (-d.exponent).toNat
    ⟨d.negative, d.coefficient / Nat.pow 10 places, lastDigits d.coefficient places, none⟩

/-- A decimal with one digit before the point and a power of ten. -/
def scientific (d : Decimal) : Numeral :=
  let places := digitCount d.coefficient - 1
  ⟨d.negative, d.coefficient / Nat.pow 10 places, lastDigits d.coefficient places,
    some (d.magnitude - 1)⟩

/-- The numeral of a decimal whose coefficient does not end in a zero digit. -/
def ofDecimal (d : Decimal) : Numeral :=
  let leading := d.magnitude - 1
  if d.coefficient = 0 ∨ (-5 ≤ leading ∧ leading ≤ 15) then positional d else scientific d

/-- The numeral of a finite double. -/
def ofBinary64 (x : Binary64) : Numeral :=
  ofDecimal x.shortest

end Numeral

end HierarchicalTuring.Json
