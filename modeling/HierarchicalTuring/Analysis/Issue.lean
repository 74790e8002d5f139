import HierarchicalTuring.Machine

/-! # Issues

* `Issue`: what an analysis can find wrong with a project.
* `Issue.le` orders issues by their kind and then field by field, names by code points; it is the
  order of reports.
* `Issue.message` is the wording of an issue, and `Issue.toError` the check that it fails.
-/

set_option autoImplicit false

namespace HierarchicalTuring

/-- A finding of the analysis. -/
inductive Issue where
  /-- The machine can be neither simulated nor called. -/
  | missingStartState (machine : String)
  /-- A state calls a machine that the project does not have. -/
  | unknownSubmachine (machine state submachine : String)
  /-- No sequence of transitions leads from the start state to these states. -/
  | unreachableStates (machine : String) (states : List String)
  /-- The start states of these machines call one another in a loop, in this order. -/
  | submachineCycle (machines : List String)
deriving DecidableEq, Repr

namespace Issue

/-- The place of an issue's kind in the order of reports. -/
def rank : Issue → Nat
  | .missingStartState _ => 0
  | .unknownSubmachine _ _ _ => 1
  | .unreachableStates _ _ => 2
  | .submachineCycle _ => 3

/-- The fields of an issue in the order in which they are compared, each as a list of names. -/
def fields : Issue → List (List String)
  | .missingStartState machine => [[machine]]
  | .unknownSubmachine machine state submachine => [[machine], [state], [submachine]]
  | .unreachableStates machine states => [[machine], states]
  | .submachineCycle machines => [machines]

/-- Kinds first, then the fields one after the other. -/
def order (a b : Issue) : Ordering :=
  (compare a.rank b.rank).then (compare a.fields b.fields)

/-- Whether an issue may stand before another. -/
def le (a b : Issue) : Bool :=
  (order a b).isLE

/-- Issues in the order of reports. -/
def sorted (issues : List Issue) : List Issue :=
  issues.mergeSort le

/-- The wording of an issue. -/
def message : Issue → String
  | .missingStartState machine => s!"Machine {machine} has no {startStateName} state"
  | .unknownSubmachine machine state submachine =>
    s!"State {state} of machine {machine} calls unknown submachine {submachine}"
  | .unreachableStates machine states =>
    s!"Unreachable states in machine {machine}: " ++ Text.quotedList states
  | .submachineCycle machines =>
    "Start states call submachines in a loop: " ++ " -> ".intercalate machines

/-- The failed check that an issue amounts to. -/
def toError (issue : Issue) : Error :=
  .validation issue.message

theorem eq_of_rank_fields {a b : Issue} (hrank : a.rank = b.rank) (hfields : a.fields = b.fields) :
    a = b := by
  cases a <;> cases b <;> simp_all [rank, fields]

end Issue

end HierarchicalTuring
