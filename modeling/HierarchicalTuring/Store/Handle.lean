/-! # Identities and handles

* Every store has an `Identity`; copies of a store keep it, and no two stores made separately share
  one. Whoever makes stores gives out identities in order, so a fresh one is the successor of the
  last.
* A `Handle` names a slot of the stores of one identity. It owns nothing: whether it resolves is
  for the store to say.
-/

set_option autoImplicit false

namespace HierarchicalTuring

/-- What tells stores apart. -/
abbrev Identity := Nat

/-- A lasting reference to an entity of a store. -/
structure Handle where
  identity : Identity
  slot : Nat
deriving DecidableEq, Repr, Inhabited

/-- How a message shows a handle. -/
def Handle.text (h : Handle) : String :=
  s!"Handle({h.identity}:{h.slot})"

end HierarchicalTuring
