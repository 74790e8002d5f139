import HierarchicalTuring.Proofs.Project.Built
import HierarchicalTuring.Proofs.Simulation.Run

/-! # Calls are compositional

A called machine runs as it would on its own. `CallStack.above` and `Simulation.above` put callers
below a stack, the outermost first.

* `enter_above`: calls are followed without a look at what lies below.
* `unwindFrom_append_of_not_accepting` and `unwindFrom_append_of_accepting`: returning reaches what
  lies below only if everything above it accepts. `unwindFrom_append_cons` and
  `frames_unwindFrom_of_accepting` say where it stops there.
* `Steps.above`: steps of the machine alone are steps with callers below, as long as it runs. The
  step that ends its run is `step_above_of_rejected`, `step_above_of_error` or
  `step_above_of_accepted`.
-/

set_option autoImplicit false

namespace HierarchicalTuring

/-- The frame of a machine of the project in one of its states, both given by name. -/
def Frame.named? (p : Project) (machine state : String) : Option Frame := do
  let m ← p.machine? machine
  let handle ← m.stateHandle? state
  let found ← m.stateAt? handle
  return ⟨m, handle, found⟩

namespace CallStack

/-! ## Stacks above callers -/

/-- The stack with more callers below it, the outermost first. -/
def above (c : CallStack) (callers : List Frame) : CallStack :=
  { c with callers := c.callers ++ callers.reverse }

@[simp] theorem current_above (c : CallStack) (callers : List Frame) :
    (c.above callers).current = c.current := rfl

@[simp] theorem frames_above (c : CallStack) (callers : List Frame) :
    (c.above callers).frames = callers ++ c.frames := by
  simp [frames, above]

theorem enter_above (p : Project) (c : CallStack) (callers : List Frame) (remaining : Nat) :
    (c.above callers).enter p remaining =
      ((c.enter p remaining).1, (c.enter p remaining).2.above callers) := by
  induction remaining generalizing c with
  | zero =>
    unfold enter
    rw [current_above]
    rcases c.current.callee? p with e | _ | ⟨name, callee⟩ <;> rfl
  | succ remaining ih =>
    unfold enter
    rw [current_above]
    rcases c.current.callee? p with e | _ | ⟨name, callee⟩
    · rfl
    · rfl
    · exact ih (c.push callee)

/-! ## Returning to callers -/

theorem unwindFrom_append_of_not_accepting (current : Frame) (upper lower : List Frame)
    (h : (unwindFrom current upper).current.state.accepting = false) :
    unwindFrom current (upper ++ lower) =
      { unwindFrom current upper with callers := (unwindFrom current upper).callers ++ lower } := by
  induction upper generalizing current with
  | nil => exact unwindFrom_of_not_accepting h lower
  | cons caller rest ih =>
    by_cases hc : current.state.accepting = true
    · rw [unwindFrom_cons_of_accepting hc] at h ⊢
      rw [List.cons_append, unwindFrom_cons_of_accepting hc]
      exact ih caller h
    · rw [Bool.not_eq_true] at hc
      rw [unwindFrom_of_not_accepting hc, unwindFrom_of_not_accepting hc]

theorem unwindFrom_append_of_accepting (current : Frame) (upper lower : List Frame)
    (h : (unwindFrom current upper).current.state.accepting = true) :
    unwindFrom current (upper ++ lower) =
      unwindFrom (unwindFrom current upper).current lower := by
  induction upper generalizing current with
  | nil => rfl
  | cons caller rest ih =>
    by_cases hc : current.state.accepting = true
    · rw [unwindFrom_cons_of_accepting hc] at h ⊢
      rw [List.cons_append, unwindFrom_cons_of_accepting hc]
      exact ih caller h
    · rw [Bool.not_eq_true] at hc
      rw [unwindFrom_of_not_accepting hc, hc] at h
      cases h

/-- Accepting callers are left as well, up to the first one that does not accept. -/
theorem unwindFrom_append_cons {current : Frame} (h : current.state.accepting = true)
    (accepting : List Frame) (hall : ∀ frame ∈ accepting, frame.state.accepting = true)
    (frame : Frame) (rest : List Frame) :
    unwindFrom current (accepting ++ frame :: rest) = unwindFrom frame rest := by
  induction accepting generalizing current with
  | nil => exact unwindFrom_cons_of_accepting h frame rest
  | cons caller accepting ih =>
    rw [List.cons_append, unwindFrom_cons_of_accepting h]
    exact ih (hall caller List.mem_cons_self) fun f hf => hall f (List.mem_cons_of_mem _ hf)

/-- If everything accepts, the outermost frame is left. -/
theorem frames_unwindFrom_of_accepting {current : Frame} (h : current.state.accepting = true)
    (callers : List Frame) (hall : ∀ frame ∈ callers, frame.state.accepting = true) :
    (unwindFrom current callers).frames = ((current :: callers).reverse).take 1 ∧
      (unwindFrom current callers).current.state.accepting = true := by
  induction callers generalizing current with
  | nil => exact ⟨rfl, h⟩
  | cons caller rest ih =>
    have hcaller := hall caller List.mem_cons_self
    rw [unwindFrom_cons_of_accepting h]
    obtain ⟨hframes, haccepting⟩ := ih hcaller fun f hf => hall f (List.mem_cons_of_mem _ hf)
    refine ⟨?_, haccepting⟩
    rw [hframes, List.reverse_cons (a := current), List.take_append_of_le_length]
    simp

end CallStack

namespace Simulation

/-! ## Simulations above callers -/

/-- The simulation with more callers below its stack, the outermost first. -/
def above (s : Simulation) (callers : List Frame) : Simulation :=
  { s with stack := s.stack.above callers }

variable {s t : Simulation} (callers : List Frame)

@[simp] theorem frames_above : (s.above callers).frames = callers ++ s.frames :=
  CallStack.frames_above s.stack callers

theorem returned_above_of_not_accepting {stack : CallStack}
    (h : stack.unwind.current.state.accepting = false) :
    (s.above callers).returned (stack.above callers) = (s.returned stack).above callers := by
  have hunwind : (stack.above callers).unwind = stack.unwind.above callers :=
    CallStack.unwindFrom_append_of_not_accepting stack.current stack.callers callers.reverse h
  unfold returned returnFromAccepting above
  simp only [hunwind, CallStack.current_above]

theorem settle_above_of_not_accepting (h : s.settle = (.ok (), t))
    (ht : t.current.state.accepting = false) :
    (s.above callers).settle = (.ok (), t.above callers) := by
  obtain ⟨stack, henter, rfl⟩ := settle_eq_ok_iff.mp h
  refine settle_eq_ok_iff.mpr ⟨stack.above callers, ?_, ?_⟩
  · show (s.stack.above callers).enter s.project s.project.machineCount = _
    rw [CallStack.enter_above, henter]
  · exact (returned_above_of_not_accepting callers ht).symm

theorem settle_above_of_error {e : SimulationError} (h : s.settle = (.error e, t)) :
    (s.above callers).settle = (.error e, t.above callers) := by
  obtain ⟨stack, henter, rfl⟩ := settle_eq_error_iff.mp h
  refine settle_eq_error_iff.mpr ⟨stack.above callers, ?_, rfl⟩
  show (s.stack.above callers).enter s.project s.project.machineCount = _
  rw [CallStack.enter_above, henter]

/-- What settling leaves when everything above the callers accepts. -/
theorem settle_above_of_accepting (h : s.settle = (.ok (), t))
    (ht : t.current.state.accepting = true) :
    ∃ u, (s.above callers).settle = (.ok (), u) ∧ u.head = t.head ∧ u.stepCount = t.stepCount ∧
      u.stack = CallStack.unwindFrom t.current callers.reverse ∧
      u.status = if u.current.state.accepting then .accepted else s.status := by
  obtain ⟨stack, henter, rfl⟩ := settle_eq_ok_iff.mp h
  refine ⟨(s.above callers).returned (stack.above callers),
    settle_eq_ok_iff.mpr ⟨_, ?_, rfl⟩, rfl, rfl, ?_, rfl⟩
  · show (s.stack.above callers).enter s.project s.project.machineCount = _
    rw [CallStack.enter_above, henter]
  · exact CallStack.unwindFrom_append_of_accepting stack.current stack.callers callers.reverse ht

/-! ## Steps above callers -/

theorem step_above_of_running {outcome : Outcome} (h : s.step = (.ok outcome, t))
    (ht : t.status = .running) :
    outcome = .proceeds ∧ s.status = .running ∧
      (s.above callers).step = (.ok .proceeds, t.above callers) := by
  obtain ⟨hs, -, rfl⟩ | ⟨-, -, -, rfl⟩ |
    ⟨hs, transition, destination, htransition, hdestination, hsettle, rfl⟩ := step_ok_cases h
  · exact absurd ht hs
  · cases ht
  · have hnot : t.current.state.accepting = false := by
      obtain ⟨-, haccepted⟩ | ⟨hnot, -⟩ := status_of_settle (s := s.take _ _) hs hsettle
      · rw [haccepted] at ht
        cases ht
      · exact hnot
    have habove := step_of_settle_ok (s := s.above callers) hs htransition hdestination
      (settle_above_of_not_accepting callers hsettle hnot)
    refine ⟨by rw [ht]; rfl, hs, ?_⟩
    rw [habove, show (t.above callers).status = .running from ht]
    rfl

theorem step_above_of_rejected (hs : s.status = .running)
    (h : s.step = (.ok (.halts .rejected), t)) :
    (s.above callers).step = (.ok (.halts .rejected), t.above callers) := by
  obtain ⟨hnone, rfl⟩ := (step_eq_rejected_iff hs).mp h
  exact (step_eq_rejected_iff (s := s.above callers) hs).mpr ⟨hnone, rfl⟩

theorem step_above_of_error {e : SimulationError} (h : s.step = (.error e, t)) :
    (s.above callers).step = (.error e, t.above callers) := by
  obtain ⟨hs, transition, htransition, ⟨hnone, rfl, rfl⟩ | ⟨destination, hdestination, hsettle⟩⟩ :=
    step_error_cases h
  · rw [step_of_running (s := t.above callers) hs]
    simp only [above, current, CallStack.current_above] at htransition hnone ⊢
    simp only [htransition, hnone]
  · exact step_of_settle_error (s := s.above callers) hs htransition hdestination
      (settle_above_of_error callers hsettle)

/-- A step that accepts alone returns to the callers when there are some. -/
theorem step_above_of_accepted (hs : s.status = .running)
    (h : s.step = (.ok (.halts .accepted), t)) :
    t.current.state.accepting = true ∧ t.stack.callers = [] ∧
    ∃ u, (s.above callers).step = (.ok (.ofStatus u.status), u) ∧ u.head = t.head ∧
      u.stepCount = t.stepCount ∧ u.stack = CallStack.unwindFrom t.current callers.reverse ∧
      u.status = if u.current.state.accepting then .accepted else .running := by
  obtain ⟨hs', -, -⟩ | ⟨-, -, hreject, -⟩ |
    ⟨-, transition, destination, htransition, hdestination, hsettle, houtcome⟩ := step_ok_cases h
  · exact absurd hs hs'
  · cases hreject
  · have haccepting : t.current.state.accepting = true := by
      obtain ⟨haccepting, -⟩ | ⟨-, hstatus⟩ := status_of_settle (s := s.take _ _) hs hsettle
      · exact haccepting
      · rw [hstatus] at houtcome
        cases houtcome
    obtain ⟨u, hu, hhead, hcount, hstack, hstatus⟩ :=
      settle_above_of_accepting callers hsettle haccepting
    refine ⟨haccepting, ?_, u, ?_, hhead, hcount, hstack, ?_⟩
    · obtain ⟨stack, -, rfl⟩ := settle_eq_ok_iff.mp hsettle
      exact CallStack.callers_unwindFrom_of_accepting stack.current stack.callers haccepting
    · exact step_of_settle_ok (s := s.above callers) hs htransition hdestination hu
    · rw [hstatus, show (s.take transition destination).status = .running from hs]

theorem Steps.above {n : Nat} (h : Steps n s t) (ht : t.status = .running) :
    Steps n (s.above callers) (t.above callers) := by
  induction n generalizing s with
  | zero => exact congrArg (Simulation.above · callers) h
  | succ n ih =>
    obtain ⟨outcome, u, hstep, hrest⟩ := h
    have hu : u.status = .running := hrest.running_of_running ht
    exact ⟨.proceeds, u.above callers, (step_above_of_running callers hstep hu).2.2, ih hrest⟩

/-! ## A machine with callers and without -/

/-- A running simulation in a frame with callers, the outermost first. -/
def runningIn (p : Project) (head : Head) (stepCount : Nat) (callers : List Frame)
    (frame : Frame) : Simulation :=
  ⟨p, head, ⟨frame, callers.reverse⟩, .running, stepCount⟩

theorem above_runningIn (p : Project) (head : Head) (stepCount : Nat) (frame : Frame) :
    (runningIn p head stepCount [] frame).above callers =
      runningIn p head stepCount callers frame := by
  simp [runningIn, above, CallStack.above]

/-- A machine with callers runs as it does without. When it accepts, the accepting callers on top
are left as well; when it rejects or fails, nothing is left. -/
theorem callers_neither_read_nor_changed (p : Project) (head : Head) (stepCount : Nat)
    (callers : List Frame) (frame : Frame) {n : Nat} {a : Simulation}
    (hsteps : Steps n (runningIn p head stepCount [] frame) a) (hrunning : a.status = .running) :
    ∃ b, Steps n (runningIn p head stepCount callers frame) b ∧ b.status = .running ∧
      b.head = a.head ∧ b.stepCount = a.stepCount ∧ b.project = a.project ∧
      b.frames = callers ++ a.frames ∧
      (∀ a', a.step = (.ok (.halts .accepted), a') →
        ∃ outcome b', b.step = (.ok outcome, b') ∧ b'.head = a'.head ∧
          b'.stepCount = a'.stepCount ∧
          (∀ before caller after, callers = before ++ caller :: after →
            caller.state.accepting = false →
            (∀ later ∈ after, later.state.accepting = true) →
            outcome = .proceeds ∧ b'.status = .running ∧ b'.frames = before ++ [caller]) ∧
          ((∀ caller ∈ callers, caller.state.accepting = true) →
            outcome = .halts .accepted ∧ b'.status = .accepted ∧
              b'.frames = (callers ++ a'.frames).take 1)) ∧
      (∀ a', a.step = (.ok (.halts .rejected), a') →
        ∃ b', b.step = (.ok (.halts .rejected), b') ∧ b'.head = a'.head ∧
          b'.stepCount = a'.stepCount ∧ b'.status = .rejected ∧
          b'.frames = callers ++ a'.frames) ∧
      (∀ e a', a.step = (.error e, a') →
        ∃ b', b.step = (.error e, b') ∧ b'.head = a'.head ∧ b'.stepCount = a'.stepCount ∧
          b'.status = a'.status ∧ b'.frames = callers ++ a'.frames) := by
  have habove := hsteps.above callers hrunning
  rw [above_runningIn] at habove
  refine ⟨a.above callers, habove, hrunning, rfl, rfl, rfl, frames_above callers, ?_, ?_, ?_⟩
  -- Only a step that accepts looks at the callers: how far they are left depends on their states.
  · intro a' ha'
    obtain ⟨haccepting, hnone, b', hb', hhead, hcount, hstack, hstatus⟩ :=
      step_above_of_accepted callers hrunning ha'
    refine ⟨_, b', hb', hhead, hcount, ?_, ?_⟩
    · rintro before caller after rfl hcaller hafter
      have hunwind : b'.stack = ⟨caller, before.reverse⟩ := by
        rw [hstack, List.reverse_append, List.reverse_cons, List.append_assoc,
          List.singleton_append,
          CallStack.unwindFrom_append_cons haccepting _ (by simpa using hafter),
          CallStack.unwindFrom_of_not_accepting hcaller]
      have hrun : b'.status = .running := by
        rw [hstatus, current, hunwind, hcaller]
        rfl
      refine ⟨by rw [hrun]; rfl, hrun, ?_⟩
      rw [frames, hunwind, CallStack.frames, List.reverse_reverse]
    · intro hall
      obtain ⟨hframes, hlast⟩ := CallStack.frames_unwindFrom_of_accepting haccepting
        callers.reverse (by simpa using hall)
      have haccepted : b'.status = .accepted := by
        rw [hstatus, current, hstack, hlast]
        rfl
      refine ⟨by rw [haccepted]; rfl, haccepted, ?_⟩
      have ha : a'.frames = [a'.current] := by
        rw [frames, CallStack.frames, hnone]
        rfl
      rw [frames, hstack, hframes, ha, List.reverse_cons, List.reverse_reverse]
  · intro a' ha'
    have hb' := step_above_of_rejected callers hrunning ha'
    refine ⟨a'.above callers, hb', rfl, rfl, ?_, frames_above callers⟩
    obtain ⟨-, rfl⟩ := (step_eq_rejected_iff hrunning).mp ha'
    rfl
  · intro e a' ha'
    exact ⟨a'.above callers, step_above_of_error callers ha', rfl, rfl, rfl, frames_above callers⟩

/-- The sample, where `pair` leaves its second one to a machine `single` and accepts after that. -/
def nestedSample : Project × Identity :=
  [Project.Edit.editMachine "pair" (.editState "second" (.setSubmachine (some "single"))),
    .editMachine "pair" (.editState "second" (.setAccepting true)),
    .addMachine "single",
    .editMachine "single" (.addState "start"),
    .editMachine "single" (.addState "end"),
    .editMachine "single" (.editState "end" (.setAccepting true)),
    .editMachine "single" (.addTransition "start" "end" "1" none .right)].foldl
    (fun built edit => edit.apply built) Project.sample

/-- The machine `pair` reads two ones above two callers, the second one in a call of its own. When that
call accepts, `pair` and the second caller accept as well and are left with it, and the first caller
goes on. -/
theorem callers_of_sample : ∃ frame waiting passing a b b',
    Frame.named? nestedSample.1 "pair" "start" = some frame ∧
    Frame.named? nestedSample.1 "main" "call" = some waiting ∧
    Frame.named? nestedSample.1 "main" "done" = some passing ∧
    Steps 1 (runningIn nestedSample.1 (.start (.ofText "11" '_')) 0 [] frame) a ∧
    a.status = .running ∧
    a.frames.map (fun f => (f.machine.name, f.state.name)) =
      [("pair", "second"), ("single", "start")] ∧
    Steps 1 (runningIn nestedSample.1 (.start (.ofText "11" '_')) 0 [waiting, passing] frame) b ∧
    b.frames = [waiting, passing] ++ a.frames ∧
    b.step = (.ok .proceeds, b') ∧ b'.frames = [waiting] := by
  let frame := (Frame.named? nestedSample.1 "pair" "start").get rfl
  let waiting := (Frame.named? nestedSample.1 "main" "call").get rfl
  let passing := (Frame.named? nestedSample.1 "main" "done").get rfl
  let alone := runningIn nestedSample.1 (.start (.ofText "11" '_')) 0 [] frame
  have hsteps : Steps 1 alone alone.step.2 := .succ_of_isSome (by decide +kernel) rfl
  have hnested : alone.step.2.frames.map (fun f => (f.machine.name, f.state.name)) =
      [("pair", "second"), ("single", "start")] := by
    decide +kernel
  obtain ⟨b, hb, -, -, -, -, hframes, haccepted, -⟩ :=
    callers_neither_read_nor_changed _ _ _ [waiting, passing] frame hsteps rfl
  obtain ⟨outcome, b', hstep, -, -, hwait, -⟩ := haccepted _ rfl
  have hpassing : ∀ later ∈ [passing], later.state.accepting = true :=
    List.forall_mem_singleton.mpr rfl
  obtain ⟨rfl, -, hb'⟩ := hwait [] waiting [passing] rfl rfl hpassing
  exact ⟨frame, waiting, passing, _, b, b', rfl, rfl, rfl, hsteps, rfl, hnested, hb, hframes, hstep,
    hb'⟩

end Simulation

end HierarchicalTuring
