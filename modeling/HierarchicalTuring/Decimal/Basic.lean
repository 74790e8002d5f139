import HierarchicalTuring.Decimal.Digit

/-! # Decimal numbers

* `Decimal` is a signed whole coefficient times a power of ten, as a text in decimal notation gives
  it. Many decimals have one value; `Decimal.normalized` drops the zeros at the end of the
  coefficient.
* `digitCount` is the length of a number in decimal notation, and `Decimal.magnitude` the position
  of the leading digit.
-/

set_option autoImplicit false

namespace HierarchicalTuring

/-- The number `± coefficient * 10 ^ exponent`. -/
structure Decimal where
  negative : Bool
  coefficient : Nat
  exponent : Int
deriving DecidableEq, Repr

/-- How many digits a number has in decimal notation; zero has one. -/
def digitCount (n : Nat) : Nat :=
  (decimalDigits n).length

namespace Decimal

/-- One more than the power of ten of the leading digit: a non-zero decimal lies below
`10 ^ magnitude`, and not below the tenth part of it. -/
def magnitude (d : Decimal) : Int :=
  digitCount d.coefficient + d.exponent

/-- Divides a coefficient by ten while it ends in a zero digit, at most `fuel` times, and counts the
divisions. -/
def dropZeros : Nat → Nat → Nat × Nat
  | 0, n => (n, 0)
  | fuel + 1, n =>
    if n % 10 = 0 then
      let (m, count) := dropZeros fuel (n / 10)
      (m, count + 1)
    else (n, 0)

/-- The same value with a coefficient that does not end in a zero digit; zero stays as it is. -/
def normalized (d : Decimal) : Decimal :=
  if d.coefficient = 0 then d
  else
    let (m, count) := dropZeros (digitCount d.coefficient) d.coefficient
    { d with coefficient := m, exponent := d.exponent + count }

theorem dropZeros_eq (fuel n : Nat) :
    (dropZeros fuel n).1 * Nat.pow 10 (dropZeros fuel n).2 = n := by
  induction fuel generalizing n with
  | zero => simp [dropZeros]
  | succ fuel ih =>
    unfold dropZeros
    split
    · next h =>
      have hrest := ih (n / 10)
      show _ * (Nat.pow 10 _ * 10) = n
      rw [← Nat.mul_assoc, hrest]
      omega
    · simp

end Decimal

end HierarchicalTuring
