import HierarchicalTuring.Decimal.Rounding

/-! # Arithmetic on doubles

Doubles are multiplied and divided by taking the exact result to the nearest double. Here a double
stands for its magnitude, and a magnitude from `infiniteMagnitude` on for one that is too large.

* `naturalMagnitude`, `productMagnitude` and `quotientMagnitude` round a whole number, a product and
  a quotient. Values are whole multiples of 2^-1074, so a product has its rounding point at 2^-2148.
* `Binary64.scaled?` is a whole number times a power of ten as arithmetic gives it: the number is
  rounded, the power of ten is rounded, and the product or quotient is rounded again. The result
  may be another double than the nearest one.
-/

set_option autoImplicit false

namespace HierarchicalTuring

/-- The double nearest to a whole number. -/
def naturalMagnitude (n : Nat) : Nat :=
  nearestMagnitude (n * Nat.pow 2 1074) 1

/-- The double nearest to the product of two. -/
def productMagnitude (a b : Nat) : Nat :=
  nearestMagnitude (Binary64.unitsOf a * Binary64.unitsOf b) (Nat.pow 2 1074)

/-- The double nearest to the quotient of two. -/
def quotientMagnitude (a b : Nat) : Nat :=
  nearestMagnitude (Binary64.unitsOf a * Nat.pow 2 1074) (Binary64.unitsOf b)

/-- The greatest power of ten that is not too large for a double. -/
def maxPower : Nat := 308

/-- The double nearest to a power of ten. -/
def powerMagnitude (power : Nat) : Nat :=
  naturalMagnitude (Nat.pow 10 power)

/-- Divides by the greatest power of ten a number of times. -/
def divideByMaxPower (magnitude : Nat) : Nat → Nat
  | 0 => magnitude
  | count + 1 =>
    if magnitude = 0 then 0
    else divideByMaxPower (quotientMagnitude magnitude (powerMagnitude maxPower)) count

/-- A double divided by a power of ten, in several divisions if the power is too large for one. -/
def dividedByPower (magnitude power : Nat) : Nat :=
  let count := (power - 1) / maxPower
  quotientMagnitude (divideByMaxPower magnitude count) (powerMagnitude (power - maxPower * count))

/-- A whole number times a power of ten. -/
def scaledMagnitude (significand : Nat) (exponent : Int) : Nat :=
  let magnitude := naturalMagnitude significand
  if exponent < 0 then dividedByPower magnitude (-exponent).toNat
  else if exponent ≤ maxPower then productMagnitude magnitude (powerMagnitude exponent.toNat)
  else if magnitude = 0 then 0
  else Binary64.infiniteMagnitude

namespace Binary64

/-- A whole number times a power of ten with a sign, unless that is too large. -/
def scaled? (negative : Bool) (significand : Nat) (exponent : Int) : Option Binary64 :=
  ofMagnitude? negative (scaledMagnitude significand exponent)

end Binary64

end HierarchicalTuring
