import HierarchicalTuring.Project

/-! # Call stacks

Machines call one another, so a run is in one state of each of several machines at once.

* `Frame`: a machine and the state it is in. `Frame.callee?` is the frame that its state calls for.
* `CallStack`: the current frame and its callers. `CallStack.frames` lists them, the outermost
  first.
* `CallStack.enter` follows calls until a state calls nothing. Calls read nothing, so a chain longer
  than the number of machines comes back to one of them and would never end. What was entered before
  a call that fails stays on the stack.
* `CallStack.unwind` leaves accepting states for their callers, which are not entered again. It
  stops at a state that does not accept or at the outermost frame.
-/

set_option autoImplicit false

namespace HierarchicalTuring

/-- One level of calls: a machine, and the state it is in with its handle. -/
structure Frame where
  machine : Machine
  handle : Handle
  state : State
deriving Repr

namespace Frame

/-- The frame a machine is entered with. -/
def start (machine : Machine) : Except SimulationError Frame :=
  match machine.start? with
  | some (handle, state) => .ok ⟨machine, handle, state⟩
  | none => .error (.startStateNotFound machine.name)

/-- The name of the machine that the state calls and the frame to enter it with, if it calls. -/
def callee? (p : Project) (frame : Frame) : Except SimulationError (Option (String × Frame)) :=
  match frame.state.submachine with
  | none => .ok none
  | some name =>
    match p.machine? name with
    | none => .error (.submachineNotFound name frame.state.name frame.machine.name)
    | some submachine => (start submachine).map fun callee => some (name, callee)

end Frame

/-- The current frame and the frames that wait for it. -/
structure CallStack where
  current : Frame
  /-- The innermost first. -/
  callers : List Frame
deriving Repr

namespace CallStack

/-- All frames, the outermost first. -/
def frames (c : CallStack) : List Frame :=
  c.callers.reverse ++ [c.current]

/-- The number of frames. -/
def depth (c : CallStack) : Nat :=
  c.callers.length + 1

/-- The stack with a frame on top. -/
def push (c : CallStack) (frame : Frame) : CallStack :=
  ⟨frame, c.current :: c.callers⟩

/-- Follows calls, `remaining` at most: whether that went well, and the stack that is left. -/
def enter (p : Project) (c : CallStack) : Nat → Except SimulationError Unit × CallStack
  | 0 =>
    match c.current.callee? p with
    | .error e => (.error e, c)
    | .ok none => (.ok (), c)
    | .ok (some (name, _)) => (.error (.infiniteSubmachineLoop name (p.machineCount + 1)), c)
  | remaining + 1 =>
    match c.current.callee? p with
    | .error e => (.error e, c)
    | .ok none => (.ok (), c)
    | .ok (some (_, callee)) => (c.push callee).enter p remaining

/-- Leaves accepting states, from a current frame with its callers on. -/
def unwindFrom (current : Frame) : List Frame → CallStack
  | [] => ⟨current, []⟩
  | caller :: rest =>
    if current.state.accepting then unwindFrom caller rest else ⟨current, caller :: rest⟩

/-- The stack without the accepting states on top. The outermost frame stays, whatever its state. -/
def unwind (c : CallStack) : CallStack :=
  unwindFrom c.current c.callers

/-! ## What the operations say -/

@[simp] theorem frames_push (c : CallStack) (frame : Frame) :
    (c.push frame).frames = c.frames ++ [frame] := by
  simp [frames, push]

theorem length_frames (c : CallStack) : c.frames.length = c.depth := by
  simp [frames, depth]

theorem unwindFrom_of_not_accepting {current : Frame} (h : current.state.accepting = false)
    (callers : List Frame) : unwindFrom current callers = ⟨current, callers⟩ := by
  cases callers <;> simp [unwindFrom, h]

theorem unwindFrom_cons_of_accepting {current : Frame} (h : current.state.accepting = true)
    (caller : Frame) (rest : List Frame) :
    unwindFrom current (caller :: rest) = unwindFrom caller rest := by
  rw [unwindFrom, if_pos h]

theorem unwind_of_callers_eq_nil {c : CallStack} (h : c.callers = []) : c.unwind = c := by
  rw [unwind, h, unwindFrom, ← h]

/-- Only the outermost frame can be left in an accepting state. -/
theorem callers_unwindFrom_of_accepting (current : Frame) (callers : List Frame)
    (h : (unwindFrom current callers).current.state.accepting = true) :
    (unwindFrom current callers).callers = [] := by
  induction callers generalizing current with
  | nil => rfl
  | cons caller rest ih =>
    by_cases hc : current.state.accepting = true
    · rw [unwindFrom_cons_of_accepting hc] at h ⊢
      exact ih caller h
    · rw [Bool.not_eq_true] at hc
      rw [unwindFrom_of_not_accepting hc] at h
      rw [h] at hc
      cases hc

end CallStack

end HierarchicalTuring
