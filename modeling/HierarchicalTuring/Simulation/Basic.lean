import HierarchicalTuring.Simulation.CallStack
import HierarchicalTuring.Simulation.Status
import HierarchicalTuring.Tape.Head

/-! # Simulations

A simulation runs a machine of a project over one tape.

* `Simulation.start` enters a machine, and `Simulation.settle` brings the call stack to rest: it
  enters what is called and returns from what accepts. With every frame accepting the simulation is
  accepted.
* `Simulation.step` takes one transition and settles. A step that finds no transition, or one that
  leads nowhere, leaves head, frames and count as they were; a step that fails at a call has taken
  its transition.
* `Simulation.runFor` steps a bounded number of times, and `Simulation.RunsTo` is a run without a
  bound.
-/

set_option autoImplicit false

namespace HierarchicalTuring

/-- A run in progress. -/
structure Simulation where
  project : Project
  head : Head
  stack : CallStack
  status : Status
  stepCount : Nat
deriving Repr

namespace Simulation

/-- The frame on top. -/
def current (s : Simulation) : Frame :=
  s.stack.current

/-- The frames, the outermost machine first. -/
def frames (s : Simulation) : List Frame :=
  s.stack.frames

/-- The number of frames. -/
def depth (s : Simulation) : Nat :=
  s.stack.depth

/-! ## Settling -/

/-- Follows the calls of the state that was entered. -/
def enterSubmachines (s : Simulation) : Except SimulationError Unit × Simulation :=
  let (result, stack) := s.stack.enter s.project s.project.machineCount
  (result, { s with stack })

/-- Returns from the accepting states on top; the simulation is accepted if an accepting state is
left. -/
def returnFromAccepting (s : Simulation) : Simulation :=
  let stack := s.stack.unwind
  { s with stack, status := if stack.current.state.accepting then .accepted else s.status }

/-- Brings the stack to rest after a state has been entered. -/
def settle (s : Simulation) : Except SimulationError Unit × Simulation :=
  match s.enterSubmachines with
  | (.error e, t) => (.error e, t)
  | (.ok (), t) => (.ok (), t.returnFromAccepting)

/-- A simulation of a machine on a tape, the head at position 0 and the stack at rest. -/
def start (project : Project) (machineName : String) (tape : Tape) :
    Except SimulationError Simulation :=
  match project.machine? machineName with
  | none => .error (.machineNotFound machineName)
  | some machine =>
    match Frame.start machine with
    | .error e => .error e
    | .ok frame =>
      match settle ⟨project, .start tape, ⟨frame, []⟩, .running, 0⟩ with
      | (.error e, _) => .error e
      | (.ok (), s) => .ok s

/-! ## Steps -/

/-- Writes and moves as a transition says. -/
def act (h : Head) (t : Transition) : Head :=
  match t.output with
  | some c => (h.write c).move t.direction
  | none => h.move t.direction

/-- Takes a transition to a state of the current machine, without settling. -/
def take (s : Simulation) (t : Transition) (destination : State) : Simulation :=
  { s with
    head := act s.head t
    stack := { s.stack with
      current := { s.stack.current with handle := t.destination, state := destination } }
    stepCount := s.stepCount + 1 }

/-- Steps once, unless the status is terminal: the report, and the simulation that is left. -/
def step (s : Simulation) : Except SimulationError Outcome × Simulation :=
  if s.status.isTerminal then (.ok (.halts s.status), s)
  else
    match s.current.state.transitionFor? s.head.read with
    | none => (.ok (.halts .rejected), { s with status := .rejected })
    | some t =>
      match s.current.machine.stateAt? t.destination with
      | none => (.error (.danglingDestination s.current.state.name s.current.machine.name), s)
      | some destination =>
        match (s.take t destination).settle with
        | (.error e, t) => (.error e, t)
        | (.ok (), t) => (.ok (.ofStatus t.status), t)

/-- Steps until the simulation halts or fails, `n` times at most. -/
def runFor (s : Simulation) : Nat → Except SimulationError Status × Simulation
  | 0 => (.ok s.status, s)
  | n + 1 =>
    match s.step with
    | (.error e, t) => (.error e, t)
    | (.ok (.halts status), t) => (.ok status, t)
    | (.ok .proceeds, t) => t.runFor n

/-- Steps that go well, taken while the status is not terminal, end with a status and leave a
simulation. -/
inductive RunsTo : Simulation → Status → Simulation → Prop
  | halted {s : Simulation} : s.status.isTerminal = true → RunsTo s s.status s
  | step {s t u : Simulation} {outcome : Outcome} {status : Status} :
      s.status.isTerminal = false → s.step = (.ok outcome, t) → RunsTo t status u →
      RunsTo s status u

/-! ## What the operations say -/

theorem step_of_isTerminal {s : Simulation} (h : s.status.isTerminal = true) :
    s.step = (.ok (.halts s.status), s) := by
  simp [step, h]

theorem step_of_no_transition {s : Simulation} (h : s.status.isTerminal = false)
    (hnone : s.current.state.transitionFor? s.head.read = none) :
    s.step = (.ok (.halts .rejected), { s with status := .rejected }) := by
  simp [step, h, hnone]

@[simp] theorem stepCount_enterSubmachines (s : Simulation) :
    s.enterSubmachines.2.stepCount = s.stepCount := rfl

@[simp] theorem head_enterSubmachines (s : Simulation) : s.enterSubmachines.2.head = s.head := rfl

@[simp] theorem stepCount_settle (s : Simulation) : s.settle.2.stepCount = s.stepCount := by
  have h := stepCount_enterSubmachines s
  unfold settle
  split
  · next heq => rw [heq] at h; exact h
  · next heq => rw [heq] at h; exact h

@[simp] theorem head_settle (s : Simulation) : s.settle.2.head = s.head := by
  have h := head_enterSubmachines s
  unfold settle
  split
  · next heq => rw [heq] at h; exact h
  · next heq => rw [heq] at h; exact h

/-- A step after which the simulation still runs has taken a transition. -/
theorem stepCount_of_proceeds {s t : Simulation} (h : s.step = (.ok .proceeds, t)) :
    t.stepCount = s.stepCount + 1 := by
  unfold step at h
  split at h
  · cases h
  split at h
  · cases h
  next transition _ =>
  split at h
  · cases h
  next destination _ =>
  have hsettle := stepCount_settle (s.take transition destination)
  split at h
  · cases h
  · next heq =>
    rw [heq] at hsettle
    rw [← (Prod.mk.inj h).2]
    exact hsettle

@[simp] theorem runFor_zero (s : Simulation) : s.runFor 0 = (.ok s.status, s) := rfl

end Simulation

end HierarchicalTuring
