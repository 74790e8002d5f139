import HierarchicalTuring.Analysis.CallLoop
import HierarchicalTuring.Analysis.Issue
import HierarchicalTuring.Analysis.Reachability

/-! # Analysis of projects

* `Project.analyze` finds machines without a start state, calls of unknown machines, unreachable
  states and loops of calls, in the order of reports.
* `Project.validate` fails with the first finding.

A project may have any of these: a call is looked up only when a simulation enters it.
-/

set_option autoImplicit false

namespace HierarchicalTuring

namespace Project

/-- Every machine that cannot be entered. -/
def missingStartStates (p : Project) : List Issue :=
  (p.machines.live.filter fun m => m.start?.isNone).map fun m => .missingStartState m.name

/-- The unknown call of a state, if it makes one. -/
def unknownCall? (p : Project) (m : Machine) (state : State) : Option Issue := do
  let submachine ← state.submachine
  if (p.machine? submachine).isNone then
    some (.unknownSubmachine m.name state.name submachine)
  else none

/-- Every state that calls a machine the project does not have. -/
def unknownSubmachines (p : Project) : List Issue :=
  p.machines.live.flatMap fun m => m.states.live.filterMap (p.unknownCall? m)

/-- The unreachable states of a machine, if there are any. -/
def unreachableIssue? (m : Machine) : Option Issue := do
  let names ← m.unreachableStates?
  if names = [] then none
  else some (.unreachableStates m.name (names.mergeSort fun a b => decide (a ≤ b)))

/-- The unreachable states of every machine. -/
def unreachableStates (p : Project) : List Issue :=
  p.machines.live.filterMap unreachableIssue?

/-- Every loop of calls between start states. -/
def submachineCycles (p : Project) : List Issue :=
  p.callLoops.map .submachineCycle

/-- All findings, in the order of reports. -/
def analyze (p : Project) : List Issue :=
  Issue.sorted
    (p.missingStartStates ++ p.unknownSubmachines ++ p.unreachableStates ++ p.submachineCycles)

/-- Fails with the first finding. -/
def validate (p : Project) : Except Error Unit :=
  match p.analyze with
  | [] => .ok ()
  | issue :: _ => .error issue.toError

theorem mem_analyze {p : Project} {issue : Issue} :
    issue ∈ p.analyze ↔ issue ∈ p.missingStartStates ∨ issue ∈ p.unknownSubmachines ∨
      issue ∈ p.unreachableStates ∨ issue ∈ p.submachineCycles := by
  simp [analyze, Issue.sorted, List.mem_mergeSort]

theorem validate_eq_ok_iff {p : Project} : p.validate = .ok () ↔ p.analyze = [] := by
  unfold validate
  cases p.analyze <;> simp

theorem validate_eq_error_iff {p : Project} {e : Error} :
    p.validate = .error e ↔ ∃ issue, p.analyze.head? = some issue ∧ e = issue.toError := by
  unfold validate
  cases p.analyze <;> simp [eq_comm]

end Project

end HierarchicalTuring
