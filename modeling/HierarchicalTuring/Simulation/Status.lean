/-! # The status of a simulation

* `Status`: a simulation runs, or it has accepted or rejected for good.
* `Outcome`: what one step reports.
-/

set_option autoImplicit false

namespace HierarchicalTuring

/-- Where a simulation stands. -/
inductive Status where
  /-- A transition can still be taken. -/
  | running
  /-- The outermost machine reached an accepting state. -/
  | accepted
  /-- No transition reads the character under the head. -/
  | rejected
deriving DecidableEq, Repr, Inhabited

/-- Whether nothing happens any more. -/
def Status.isTerminal : Status → Bool
  | .running => false
  | .accepted => true
  | .rejected => true

/-- What one step reports. -/
inductive Outcome where
  /-- A transition was taken and the simulation still runs. -/
  | proceeds
  /-- The simulation has a terminal status. -/
  | halts (status : Status)
deriving DecidableEq, Repr

/-- The report that belongs to a status. -/
def Outcome.ofStatus (status : Status) : Outcome :=
  if status = .running then .proceeds else .halts status

end HierarchicalTuring
