import HierarchicalTuring.Decimal.Rounding

/-! # The shortest decimal of a double

* `Binary64.shortest` is, of the decimals that round to a finite double, one with the fewest digits;
  of several it is the nearest to the double, and of two equally near ones the even one.

A decimal with `n` digits lies on the grid of multiples of a power of ten. If any point of the grid
rounds to the double, one of the double's two neighbours on it does (`neighbours`), so it is enough
to try these, for 1 digit, 2 digits and so on. Seventeen digits always suffice; after them stands
the exact decimal expansion (`exact`), which every double has.
-/

set_option autoImplicit false

namespace HierarchicalTuring

namespace Binary64

/-- One more than the power of ten of a finite double's leading digit. The least double has it at
-324, so six digits and more of `units * 10^330 / 2^1074` are whole. -/
def decimalMagnitude (x : Binary64) : Int :=
  (digitCount (x.units * Nat.pow 10 330 / Nat.pow 2 1074) : Int) - 330

/-- A finite double as a fraction in units of `10 ^ grid`. -/
def onGrid (x : Binary64) (grid : Int) : Nat × Nat :=
  if 0 ≤ grid then (x.units, Nat.pow 2 1074 * Nat.pow 10 grid.toNat)
  else (x.units * Nat.pow 10 (-grid).toNat, Nat.pow 2 1074)

/-- The neighbours of a finite double on the grid of multiples of `10 ^ grid`, the nearer one
first. -/
def neighbours (x : Binary64) (grid : Int) : List Decimal :=
  let (numerator, denominator) := x.onGrid grid
  let below := numerator / denominator
  let twiceRest := 2 * (numerator % denominator)
  let low : Decimal := ⟨x.negative, below, grid⟩
  let high : Decimal := ⟨x.negative, below + 1, grid⟩
  if twiceRest < denominator ∨ (twiceRest = denominator ∧ below % 2 = 0) then [low, high]
  else [high, low]

/-- The double as a decimal, digit for digit. -/
def exact (x : Binary64) : Decimal :=
  ⟨x.negative, x.units * Nat.pow 5 1074, -1074⟩

/-- The first neighbour that rounds to the double on the grids for `digits` digits, `digits + 1` and
so on, `count` grids in all. -/
def searchShortest (x : Binary64) (digits : Nat) : Nat → Option Decimal
  | 0 => none
  | count + 1 =>
    match (x.neighbours (x.decimalMagnitude - digits)).find? fun d => ofDecimal? d = some x with
    | some d => some d
    | none => searchShortest x (digits + 1) count

/-- The decimal with the fewest digits that rounds to a finite double. -/
def shortest (x : Binary64) : Decimal :=
  if x.magnitude = 0 then ⟨x.negative, 0, 0⟩
  else ((x.searchShortest 1 17).getD x.exact).normalized

end Binary64

end HierarchicalTuring
