import HierarchicalTuring.Decimal.Basic
import HierarchicalTuring.Decimal.Binary64

/-! # Rounding to doubles

* `nearestMagnitude` takes a fraction, in units of 2^-1074, to the magnitude of the nearest double;
  of two equally near ones it takes the even one.
* `Binary64.ofMagnitude?` is the double of a magnitude. One that is infinite or larger is refused.
* `Binary64.ofDecimal?` is the nearest double of a decimal. A value that would round to an infinity
  is too large; one that is too small becomes a zero with the decimal's sign.

The two comparisons with the decimal's magnitude in `magnitudeOfDecimal` only avoid huge powers of
ten: below 10^-324 every value rounds to zero, and from 10^309 on every value is too large.
-/

set_option autoImplicit false

namespace HierarchicalTuring

/-- The magnitude of the double nearest to `numerator / denominator` units. The fraction lies in a
stretch where doubles are `2 ^ shift` units apart. -/
def nearestMagnitude (numerator denominator : Nat) : Nat :=
  let whole := numerator / denominator
  let shift := Nat.log2 whole - 52
  let spacing := Nat.pow 2 shift * denominator
  let below := numerator / spacing
  let magnitude := shift * Nat.pow 2 52 + below
  let twiceRest := 2 * (numerator % spacing)
  if twiceRest > spacing ∨ (twiceRest = spacing ∧ below % 2 = 1) then magnitude + 1 else magnitude

namespace Binary64

/-- The finite double with a magnitude. -/
def ofMagnitude? (negative : Bool) (magnitude : Nat) : Option Binary64 :=
  if h : magnitude < infiniteMagnitude then
    some ⟨negative, magnitude, Nat.lt_trans h (by decide)⟩
  else none

theorem ofMagnitude?_eq_some_iff {negative : Bool} {magnitude : Nat} {x : Binary64} :
    ofMagnitude? negative magnitude = some x ↔
      magnitude < infiniteMagnitude ∧ x.negative = negative ∧ x.magnitude = magnitude := by
  unfold ofMagnitude?
  split
  · next h =>
    obtain ⟨n, m, hm⟩ := x
    simp only [Option.some.injEq, Binary64.mk.injEq, h, true_and]
    exact ⟨fun hx => ⟨hx.1.symm, hx.2.symm⟩, fun hx => ⟨hx.1.symm, hx.2.symm⟩⟩
  · next h => simp [h]

/-- The magnitude of the double nearest to a decimal, infinite or larger if there is none. -/
def magnitudeOfDecimal (d : Decimal) : Nat :=
  if d.coefficient = 0 ∨ d.magnitude ≤ -324 then 0
  else if 310 ≤ d.magnitude then infiniteMagnitude
  else if 0 ≤ d.exponent then
    nearestMagnitude (d.coefficient * Nat.pow 10 d.exponent.toNat * Nat.pow 2 1074) 1
  else
    nearestMagnitude (d.coefficient * Nat.pow 2 1074) (Nat.pow 10 (-d.exponent).toNat)

/-- The double nearest to a decimal, unless the decimal is too large. -/
def ofDecimal? (d : Decimal) : Option Binary64 :=
  ofMagnitude? d.negative (magnitudeOfDecimal d)

theorem ofDecimal?_isFinite {d : Decimal} {x : Binary64} (h : ofDecimal? d = some x) :
    x.isFinite = true := by
  obtain ⟨hlt, _, hx⟩ := ofMagnitude?_eq_some_iff.mp h
  simpa [isFinite, hx] using hlt

theorem negative_of_ofDecimal? {d : Decimal} {x : Binary64} (h : ofDecimal? d = some x) :
    x.negative = d.negative :=
  (ofMagnitude?_eq_some_iff.mp h).2.1

end Binary64

end HierarchicalTuring
