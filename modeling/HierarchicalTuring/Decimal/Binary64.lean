/-! # Double-precision numbers

A coordinate is an IEEE-754 binary64 number, kept as its sign and the remaining 63 bits.

* `Binary64.units` is the absolute value of a finite number in units of 2^-1074, of which every
  finite number is a whole multiple.
* `Binary64.agrees` is the comparison of values: a NaN agrees with nothing, and the two zeros agree.
  Equality as a Lean term is the finer one, that of bits.
-/

set_option autoImplicit false

namespace HierarchicalTuring

/-- A double: its sign bit and the 63 bits below it. -/
structure Binary64 where
  negative : Bool
  magnitude : Nat
  magnitude_lt : magnitude < Nat.pow 2 63
deriving DecidableEq, Repr

namespace Binary64

/-- The magnitude of the infinities; finite numbers lie below it and NaNs above. -/
def infiniteMagnitude : Nat := 2047 * Nat.pow 2 52

/-- The zero with a sign. -/
def zero (negative : Bool) : Binary64 :=
  ⟨negative, 0, by decide⟩

/-- The infinity with a sign. -/
def infinity (negative : Bool) : Binary64 :=
  ⟨negative, infiniteMagnitude, by decide⟩

/-- A number that agrees with none. -/
def nan : Binary64 :=
  ⟨false, infiniteMagnitude + Nat.pow 2 51, by decide⟩

instance : Inhabited Binary64 := ⟨zero false⟩

def isNaN (x : Binary64) : Bool :=
  infiniteMagnitude < x.magnitude

def isFinite (x : Binary64) : Bool :=
  x.magnitude < infiniteMagnitude

/-- The number as a 64-bit word. -/
def bits (x : Binary64) : Nat :=
  (if x.negative then Nat.pow 2 63 else 0) + x.magnitude

/-- Whether two numbers have the same value. -/
def agrees (x y : Binary64) : Bool :=
  !x.isNaN && !y.isNaN && (x = y || (x.magnitude = 0 && y.magnitude = 0))

/-! ## Values as whole multiples of the least positive number -/

/-- The absolute value that a magnitude stands for, in units of 2^-1074. The exponent field is
`magnitude / 2^52`; the numbers with field 0 and those with field 1 lie equally dense. -/
def unitsOf (magnitude : Nat) : Nat :=
  let field := magnitude / Nat.pow 2 52
  let fraction := magnitude % Nat.pow 2 52
  if field = 0 then fraction else (Nat.pow 2 52 + fraction) * Nat.pow 2 (field - 1)

/-- The absolute value of a finite number in units of 2^-1074. -/
def units (x : Binary64) : Nat :=
  unitsOf x.magnitude

theorem unitsOf_of_lt {magnitude : Nat} (h : magnitude < Nat.pow 2 52) :
    unitsOf magnitude = magnitude := by
  simp only [unitsOf, Nat.div_eq_of_lt h, Nat.mod_eq_of_lt h, if_true]

theorem agrees_self_iff (x : Binary64) : x.agrees x = true ↔ x.isNaN = false := by
  simp [agrees]

end Binary64

end HierarchicalTuring
