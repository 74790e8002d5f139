import HierarchicalTuring.Proofs.Result
import HierarchicalTuring.Simulation.Basic

/-! # Steps and runs

What one step can do, and runs as steps taken one after the other.

* `step_ok_cases`: a step that does not fail finds a terminal status, finds no transition, or takes
  one and settles. `step_error_cases` is the same for a step that fails.
* `settle_eq_ok_iff` and `settle_eq_error_iff` say what settling does to the stack and the status.
* `Steps n s t`: `n` steps lead from `s` to `t`, and none of them fails. What every step keeps, a
  run keeps (`Steps.keeps`).
* A simulation with a terminal status stays as it is (`Steps.eq_of_terminal`, `runFor_of_terminal`,
  `runsTo_iff_of_terminal`).
-/

set_option autoImplicit false

namespace HierarchicalTuring

theorem Status.isTerminal_eq_false_iff {status : Status} :
    status.isTerminal = false ↔ status = .running := by
  cases status <;> simp [Status.isTerminal]

theorem Status.isTerminal_eq_true_iff {status : Status} :
    status.isTerminal = true ↔ status ≠ .running := by
  cases status <;> simp [Status.isTerminal]

@[simp] theorem Outcome.ofStatus_running : Outcome.ofStatus .running = .proceeds := rfl

theorem Outcome.ofStatus_of_ne {status : Status} (h : status ≠ .running) :
    Outcome.ofStatus status = .halts status := by
  simp [Outcome.ofStatus, h]

namespace Simulation

/-! ## Settling -/

/-- The simulation with another stack, from which the accepting states on top were left. -/
def returned (s : Simulation) (stack : CallStack) : Simulation :=
  returnFromAccepting { s with stack }

@[simp] theorem head_returned (s : Simulation) (stack : CallStack) :
    (s.returned stack).head = s.head := rfl

@[simp] theorem stepCount_returned (s : Simulation) (stack : CallStack) :
    (s.returned stack).stepCount = s.stepCount := rfl

@[simp] theorem project_returned (s : Simulation) (stack : CallStack) :
    (s.returned stack).project = s.project := rfl

@[simp] theorem stack_returned (s : Simulation) (stack : CallStack) :
    (s.returned stack).stack = stack.unwind := rfl

theorem status_returned (s : Simulation) (stack : CallStack) :
    (s.returned stack).status =
      if stack.unwind.current.state.accepting then .accepted else s.status := rfl

theorem settle_eq_ok_iff {s t : Simulation} :
    s.settle = (.ok (), t) ↔ ∃ stack,
      s.stack.enter s.project s.project.machineCount = (.ok (), stack) ∧ t = s.returned stack := by
  unfold settle enterSubmachines
  rcases s.stack.enter s.project s.project.machineCount with ⟨_ | _, stack⟩
  · simp
  · simp [returned, eq_comm]

theorem settle_eq_error_iff {s t : Simulation} {e : SimulationError} :
    s.settle = (.error e, t) ↔ ∃ stack,
      s.stack.enter s.project s.project.machineCount = (.error e, stack) ∧
        t = { s with stack } := by
  unfold settle enterSubmachines
  rcases s.stack.enter s.project s.project.machineCount with ⟨_ | _, stack⟩
  · simp only [Prod.mk.injEq, Except.error.injEq]
    constructor
    · rintro ⟨rfl, rfl⟩
      exact ⟨stack, ⟨rfl, rfl⟩, rfl⟩
    · rintro ⟨_, ⟨rfl, rfl⟩, rfl⟩
      exact ⟨rfl, rfl⟩
  · simp

/-- Settling ends with everything accepted, or at a state that does not accept. -/
theorem status_of_settle {s t : Simulation} (hs : s.status = .running)
    (h : s.settle = (.ok (), t)) :
    (t.current.state.accepting = true ∧ t.status = .accepted) ∨
      (t.current.state.accepting = false ∧ t.status = .running) := by
  obtain ⟨stack, -, rfl⟩ := settle_eq_ok_iff.mp h
  rw [status_returned, current, stack_returned]
  cases stack.unwind.current.state.accepting with
  | true => exact .inl ⟨rfl, rfl⟩
  | false => exact .inr ⟨rfl, hs⟩

/-- A machine that was entered on a tape, its stack not yet at rest. -/
def unsettled (p : Project) (tape : Tape) (frame : Frame) : Simulation :=
  ⟨p, .start tape, ⟨frame, []⟩, .running, 0⟩

theorem start_of_frame {p : Project} {name : String} {machine : Machine} {frame : Frame}
    (hmachine : p.machine? name = some machine) (hframe : Frame.start machine = .ok frame)
    (tape : Tape) :
    start p name tape =
      match (unsettled p tape frame).settle with
      | (.error e, _) => .error e
      | (.ok (), s) => .ok s := by
  simp only [start, hmachine, hframe]
  rfl

theorem start_eq_ok_iff {p : Project} {name : String} {tape : Tape} {s : Simulation} :
    start p name tape = .ok s ↔ ∃ machine frame, p.machine? name = some machine ∧
      Frame.start machine = .ok frame ∧ (unsettled p tape frame).settle = (.ok (), s) := by
  constructor
  · intro h
    cases hmachine : p.machine? name with
    | none => simp [start, hmachine] at h
    | some machine =>
      cases hframe : Frame.start machine with
      | error e => simp [start, hmachine, hframe] at h
      | ok frame =>
        rw [start_of_frame hmachine hframe] at h
        split at h
        · cases h
        · next t hsettle =>
          cases h
          exact ⟨machine, frame, rfl, hframe, hsettle⟩
  · rintro ⟨machine, frame, hmachine, hframe, hsettle⟩
    rw [start_of_frame hmachine hframe, hsettle]

theorem fields_of_start {p : Project} {name : String} {tape : Tape} {s : Simulation}
    (h : start p name tape = .ok s) :
    s.head = .start tape ∧ s.stepCount = 0 ∧ s.status ≠ .rejected := by
  obtain ⟨_, frame, -, -, hsettle⟩ := start_eq_ok_iff.mp h
  have hhead := head_settle (unsettled p tape frame)
  have hcount := stepCount_settle (unsettled p tape frame)
  have hstatus := status_of_settle (s := unsettled p tape frame) rfl hsettle
  rw [hsettle] at hhead hcount
  refine ⟨hhead, hcount, ?_⟩
  obtain ⟨-, hstatus⟩ | ⟨-, hstatus⟩ := hstatus <;> simp [hstatus]

/-! ## One step -/

theorem step_of_running {s : Simulation} (h : s.status = .running) :
    s.step =
      match s.current.state.transitionFor? s.head.read with
      | none => (.ok (.halts .rejected), { s with status := .rejected })
      | some t =>
        match s.current.machine.stateAt? t.destination with
        | none => (.error (.danglingDestination s.current.state.name s.current.machine.name), s)
        | some destination =>
          match (s.take t destination).settle with
          | (.error e, t) => (.error e, t)
          | (.ok (), t) => (.ok (.ofStatus t.status), t) := by
  have hs : ¬ s.status.isTerminal = true := by simp [h, Status.isTerminal]
  unfold step
  exact if_neg hs

theorem step_ok_cases {s t : Simulation} {outcome : Outcome} (h : s.step = (.ok outcome, t)) :
    (s.status ≠ .running ∧ outcome = .halts s.status ∧ t = s) ∨
    (s.status = .running ∧ s.current.state.transitionFor? s.head.read = none ∧
      outcome = .halts .rejected ∧ t = { s with status := .rejected }) ∨
    (s.status = .running ∧ ∃ transition destination,
      s.current.state.transitionFor? s.head.read = some transition ∧
      s.current.machine.stateAt? transition.destination = some destination ∧
      (s.take transition destination).settle = (.ok (), t) ∧ outcome = .ofStatus t.status) := by
  by_cases hs : s.status = .running
  · right
    rw [step_of_running hs] at h
    split at h
    · next hnone =>
      cases h
      exact .inl ⟨hs, hnone, rfl, rfl⟩
    · next transition htransition =>
      split at h
      · cases h
      · next destination hdestination =>
        split at h
        · cases h
        · next u hsettle =>
          cases h
          exact .inr ⟨hs, transition, destination, htransition, hdestination, hsettle, rfl⟩
  · left
    rw [step_of_isTerminal (Status.isTerminal_eq_true_iff.mpr hs)] at h
    cases h
    exact ⟨hs, rfl, rfl⟩

theorem step_error_cases {s t : Simulation} {e : SimulationError} (h : s.step = (.error e, t)) :
    s.status = .running ∧ ∃ transition,
      s.current.state.transitionFor? s.head.read = some transition ∧
      ((s.current.machine.stateAt? transition.destination = none ∧
        e = .danglingDestination s.current.state.name s.current.machine.name ∧ t = s) ∨
      ∃ destination, s.current.machine.stateAt? transition.destination = some destination ∧
        (s.take transition destination).settle = (.error e, t)) := by
  by_cases hs : s.status = .running
  · rw [step_of_running hs] at h
    split at h
    · cases h
    · next transition htransition =>
      refine ⟨hs, transition, htransition, ?_⟩
      split at h
      · next hnone =>
        cases h
        exact .inl ⟨hnone, rfl, rfl⟩
      · next destination hdestination =>
        split at h
        · next hsettle =>
          cases h
          exact .inr ⟨destination, hdestination, hsettle⟩
        · cases h
  · rw [step_of_isTerminal (Status.isTerminal_eq_true_iff.mpr hs)] at h
    cases h

theorem step_of_settle_ok {s t : Simulation} {transition : Transition} {destination : State}
    (hs : s.status = .running)
    (htransition : s.current.state.transitionFor? s.head.read = some transition)
    (hdestination : s.current.machine.stateAt? transition.destination = some destination)
    (hsettle : (s.take transition destination).settle = (.ok (), t)) :
    s.step = (.ok (.ofStatus t.status), t) := by
  simp only [step_of_running hs, htransition, hdestination, hsettle]

theorem step_of_settle_error {s t : Simulation} {transition : Transition} {destination : State}
    {e : SimulationError} (hs : s.status = .running)
    (htransition : s.current.state.transitionFor? s.head.read = some transition)
    (hdestination : s.current.machine.stateAt? transition.destination = some destination)
    (hsettle : (s.take transition destination).settle = (.error e, t)) :
    s.step = (.error e, t) := by
  simp only [step_of_running hs, htransition, hdestination, hsettle]

theorem step_eq_rejected_iff {s t : Simulation} (hs : s.status = .running) :
    s.step = (.ok (.halts .rejected), t) ↔
      s.current.state.transitionFor? s.head.read = none ∧ t = { s with status := .rejected } := by
  constructor
  · intro h
    obtain ⟨hs', -, -⟩ | ⟨-, hnone, -, rfl⟩ | ⟨-, _, _, -, -, hsettle, houtcome⟩ :=
      step_ok_cases h
    · exact absurd hs hs'
    · exact ⟨hnone, rfl⟩
    · obtain ⟨-, hstatus⟩ | ⟨-, hstatus⟩ := status_of_settle (s := s.take _ _) hs hsettle
      · rw [hstatus, Outcome.ofStatus_of_ne (by simp)] at houtcome
        cases houtcome
      · rw [hstatus] at houtcome
        cases houtcome
  · rintro ⟨hnone, rfl⟩
    exact step_of_no_transition (Status.isTerminal_eq_false_iff.mpr hs) hnone

/-! ## Steps in a row -/

/-- `n` steps lead from one simulation to another, and none of them fails. -/
def Steps : Nat → Simulation → Simulation → Prop
  | 0, s, t => s = t
  | n + 1, s, t => ∃ outcome u, s.step = (.ok outcome, u) ∧ Steps n u t

theorem Steps.succ_iff {n : Nat} {s t u : Simulation} {outcome : Outcome}
    (h : s.step = (.ok outcome, u)) : Steps (n + 1) s t ↔ Steps n u t := by
  constructor
  · rintro ⟨_, v, hv, hrest⟩
    rw [h] at hv
    cases hv
    exact hrest
  · exact fun hrest => ⟨outcome, u, h, hrest⟩

/-- Steps may be cut anywhere. -/
theorem Steps.exists_of_le {m n : Nat} {s t : Simulation} (h : Steps n s t) (hm : m ≤ n) :
    ∃ u, Steps m s u ∧ Steps (n - m) u t := by
  induction m generalizing s n with
  | zero => exact ⟨s, rfl, h⟩
  | succ m ih =>
    cases n with
    | zero => exact absurd hm (Nat.not_succ_le_zero m)
    | succ n =>
      obtain ⟨outcome, v, hstep, hrest⟩ := h
      obtain ⟨u, hu, hlast⟩ := ih hrest (Nat.le_of_succ_le_succ hm)
      exact ⟨u, ⟨outcome, v, hstep, hu⟩, by rwa [Nat.add_sub_add_right]⟩

/-- A step that is seen to go well, and the steps after it. -/
theorem Steps.succ_of_isSome {n : Nat} {s t : Simulation} (hs : s.step.1.toOption.isSome = true)
    (h : Steps n s.step.2 t) : Steps (n + 1) s t := by
  obtain ⟨outcome, houtcome⟩ := Option.isSome_iff_exists.mp hs
  exact ⟨outcome, _, Prod.ext (eq_ok_of_toOption houtcome) rfl, h⟩

/-- What every step keeps, a run keeps. -/
theorem Steps.keeps {P : Simulation → Prop}
    (hstep : ∀ {s t : Simulation} {outcome : Outcome}, P s → s.step = (.ok outcome, t) → P t)
    {n : Nat} {s t : Simulation} (h : Steps n s t) (hs : P s) : P t := by
  induction n generalizing s with
  | zero => exact (show s = t from h) ▸ hs
  | succ n ih =>
    obtain ⟨outcome, u, hu, hrest⟩ := h
    exact ih hrest (hstep hs hu)

/-- A run that never fails can be as long as one likes. -/
theorem Steps.exists_of_keeps {P : Simulation → Prop}
    (hstep : ∀ {s : Simulation}, P s → ∃ outcome t, s.step = (.ok outcome, t) ∧ P t)
    (n : Nat) {s : Simulation} (hs : P s) : ∃ t, Steps n s t ∧ P t := by
  induction n generalizing s with
  | zero => exact ⟨s, rfl, hs⟩
  | succ n ih =>
    obtain ⟨outcome, u, hu, hPu⟩ := hstep hs
    obtain ⟨t, ht, hPt⟩ := ih hPu
    exact ⟨t, ⟨outcome, u, hu, ht⟩, hPt⟩

/-! ## Terminal simulations -/

theorem Steps.eq_of_terminal {n : Nat} {s t : Simulation} (h : Steps n s t)
    (hs : s.status ≠ .running) : t = s := by
  refine h.keeps (P := fun u => u = s) ?_ rfl
  rintro _ u outcome rfl hu
  rw [step_of_isTerminal (Status.isTerminal_eq_true_iff.mpr hs)] at hu
  cases hu
  rfl

/-- A simulation that runs in the end has run all the time. -/
theorem Steps.running_of_running {n : Nat} {s t : Simulation} (h : Steps n s t)
    (ht : t.status = .running) : s.status = .running := by
  by_cases hs : s.status = .running
  · exact hs
  · exact h.eq_of_terminal hs ▸ ht

theorem runFor_of_terminal {s : Simulation} (hs : s.status ≠ .running) (n : Nat) :
    s.runFor n = (.ok s.status, s) := by
  cases n with
  | zero => rfl
  | succ n =>
    rw [runFor, step_of_isTerminal (Status.isTerminal_eq_true_iff.mpr hs)]

theorem runsTo_iff_of_terminal {s u : Simulation} {status : Status} (hs : s.status ≠ .running) :
    RunsTo s status u ↔ status = s.status ∧ u = s := by
  constructor
  · intro h
    cases h with
    | halted => exact ⟨rfl, rfl⟩
    | step hrunning _ _ => exact absurd (Status.isTerminal_eq_false_iff.mp hrunning) hs
  · rintro ⟨rfl, rfl⟩
    exact .halted (Status.isTerminal_eq_true_iff.mpr hs)

end Simulation

end HierarchicalTuring
