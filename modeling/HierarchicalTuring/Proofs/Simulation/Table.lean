import HierarchicalTuring.Proofs.Document.SameRuns
import HierarchicalTuring.Proofs.Simulation.Resuming
import HierarchicalTuring.Proofs.Tape.Contents
import Mathlib.Logic.Function.Iterate

/-! # Machines that run by their tables

A document without calls is a table: it says what a state does on a character, and nothing else
counts for a run.

* `MachineDocument.next` takes a `Config` one step on by a table, with the names of the states in the
  place of handles. `MachineDocument.Runs` counts such steps exactly.
* `Machine.Follows`: a machine is described by a table. Its simulations step as the table says
  (`Follows.exists_step`), so they run as it says (`Follows.exists_steps`, `Follows.runsTo`).
* `MachineDocument.Sweeps` are the runs to the right over a text that write nothing, and their length
  is that of the text (`Sweeps.runs`).
-/

set_option autoImplicit false

namespace HierarchicalTuring

/-- A movement within the range of positions. -/
theorem Head.move_eq {direction : Direction} {tape : Tape} {position position' : Nat}
    (h : position + direction.delta = position') (hle : position' ≤ maxPosition) :
    (⟨tape, position⟩ : Head).move direction = ⟨tape, position'⟩ := by
  have hposition := position_moveBy ⟨tape, position⟩ direction.delta
  simp only [move, moveBy, Head.mk.injEq, true_and] at hposition ⊢
  omega

/-! ## Tables -/

/-- The description without a place in a diagram. -/
def StateDocument.unplaced (s : StateDocument) : StateDocument :=
  { s with position := default }

/-- What a state does on a character. -/
structure Rule where
  output : Option Char
  direction : Direction
  destination : String
deriving DecidableEq, Repr

def Rule.act (rule : Rule) (h : Head) : Head :=
  match rule.output with
  | some c => (h.write c).move rule.direction
  | none => h.move rule.direction

def TransitionDocument.rule? (t : TransitionDocument) : Option Rule :=
  (Direction.ofCode? t.move).map fun direction =>
    ⟨t.output.bind singleChar?, direction, t.destination⟩

/-- Where a run of a machine stands that no other machine waits for. -/
structure Config where
  state : String
  head : Head
  stepCount : Nat
  status : Status

namespace MachineDocument

def rule? (d : MachineDocument) (state : String) (c : Char) : Option Rule :=
  (d.states.find? state).bind fun s =>
    (s.transitions.find? fun t => c ∈ t.input.toList).bind TransitionDocument.rule?

def accepts (d : MachineDocument) (state : String) : Bool :=
  (d.states.find? state).any StateDocument.accepting

/-- The configuration in which a state is entered. -/
def enter (d : MachineDocument) (state : String) (head : Head) (stepCount : Nat) : Config :=
  ⟨state, head, stepCount, if d.accepts state then .accepted else .running⟩

/-- The configuration one step on. -/
def next (d : MachineDocument) (c : Config) : Config :=
  if c.status.isTerminal then c
  else
    match d.rule? c.state c.head.read with
    | none => { c with status := .rejected }
    | some rule => d.enter rule.destination (rule.act c.head) (c.stepCount + 1)

/-- The second configuration is exactly `n` steps on from the first. -/
def Runs (d : MachineDocument) (n : Nat) (c e : Config) : Prop :=
  d.next^[n] c = e

variable {d : MachineDocument}

theorem Runs.trans {c e f : Config} {m n : Nat} (h : d.Runs m c e) (h' : d.Runs n e f) :
    d.Runs (m + n) c f := by
  unfold Runs at h h' ⊢
  rw [Nat.add_comm, Function.iterate_add_apply, h, h']

theorem runs_one_of_rule {state : String} {read : Char} {rule : Rule} {tape : Tape}
    {position : Nat} {head : Head} (hrule : d.rule? state read = some rule)
    (hread : tape.read position = read) (hact : rule.act ⟨tape, position⟩ = head)
    (stepCount : Nat) :
    d.Runs 1 ⟨state, ⟨tape, position⟩, stepCount, .running⟩
      (d.enter rule.destination head (stepCount + 1)) := by
  simp [Runs, next, Status.isTerminal, Head.read, hread, hrule, hact]

theorem runs_one_of_no_rule {state : String} {read : Char} {tape : Tape} {position : Nat}
    (hrule : d.rule? state read = none) (hread : tape.read position = read) (stepCount : Nat) :
    d.Runs 1 ⟨state, ⟨tape, position⟩, stepCount, .running⟩
      ⟨state, ⟨tape, position⟩, stepCount, .rejected⟩ := by
  simp [Runs, next, Status.isTerminal, Head.read, hread, hrule]

theorem enter_of_not_accepts {state : String} (h : d.accepts state = false) (head : Head)
    (stepCount : Nat) : d.enter state head stepCount = ⟨state, head, stepCount, .running⟩ := by
  simp [enter, h]

theorem enter_of_accepts {state : String} (h : d.accepts state = true) (head : Head)
    (stepCount : Nat) : d.enter state head stepCount = ⟨state, head, stepCount, .accepted⟩ := by
  simp [enter, h]

/-! ## Sweeps -/

/-- From a state to a state over a text, always to the right and without writing. None of the states
on the way accepts. -/
inductive Sweeps (d : MachineDocument) : String → List Char → String → Prop
  | nil (state : String) : Sweeps d state [] state
  | cons {state between last : String} {c : Char} {l : List Char} :
      d.rule? state c = some ⟨none, .right, between⟩ → d.accepts between = false →
      Sweeps d between l last → Sweeps d state (c :: l) last

theorem Sweeps.replicate {state : String} {c : Char}
    (hrule : d.rule? state c = some ⟨none, .right, state⟩) (haccepts : d.accepts state = false)
    (n : Nat) : d.Sweeps state (List.replicate n c) state := by
  induction n with
  | zero => exact .nil state
  | succ n ih => exact .cons hrule haccepts ih

theorem Sweeps.runs {state last : String} {l : List Char} (h : d.Sweeps state l last) {tape : Tape}
    {position : Nat} (hholds : tape.Holds position l) (hfits : position + l.length ≤ maxPosition)
    (stepCount : Nat) :
    d.Runs l.length ⟨state, ⟨tape, position⟩, stepCount, .running⟩
      ⟨last, ⟨tape, position + l.length⟩, stepCount + l.length, .running⟩ := by
  induction h generalizing position stepCount with
  | nil => rfl
  | @cons state between last c l hrule haccepts _ ih =>
    rw [List.length_cons] at hfits
    have hact : (⟨tape, position⟩ : Head).move .right = ⟨tape, position + 1⟩ :=
      Head.move_eq rfl (by omega)
    have s1 : d.Runs 1 ⟨state, ⟨tape, position⟩, stepCount, .running⟩
        (d.enter between ⟨tape, position + 1⟩ (stepCount + 1)) :=
      runs_one_of_rule hrule hholds.head hact stepCount
    rw [enter_of_not_accepts haccepts] at s1
    have h := s1.trans (ih hholds.tail (by omega) (stepCount + 1))
    rwa [Nat.add_comm 1 l.length, Nat.add_right_comm position, Nat.add_right_comm stepCount] at h

end MachineDocument

/-! ## Machines that follow a table -/

/-- The first transition that a description gives for a character describes the one that is taken. -/
theorem Machine.Closed.find?_transitions {m : Machine} (hclosed : m.Closed) {s : State}
    (hs : s ∈ m.states.live) (hindexed : s.Indexed) (c : Char) :
    (m.describeState s).transitions.find? (fun t => c ∈ t.input.toList) =
      (s.transitionFor? c).bind m.describe? := by
  cases hfind : (m.describeState s).transitions.find? fun t => c ∈ t.input.toList with
  | some t =>
    obtain ⟨taken, htaken, hdescribe⟩ := transitionFor?_of_mem_describeState hindexed
      (List.mem_of_find?_eq_some hfind) (by simpa using List.find?_some hfind)
    rw [htaken, Option.bind_some, hdescribe]
  | none =>
    cases htaken : s.transitionFor? c with
    | none => rfl
    | some taken =>
      obtain ⟨t, ht, hc, -⟩ := hclosed.describe?_of_transitionFor? hs hindexed htaken
      have hnot := List.find?_eq_none.mp hfind t ht
      simp [hc] at hnot

/-- A machine is described by a table, in which no state calls a machine. -/
structure Machine.Follows (m : Machine) (d : MachineDocument) : Prop where
  wellFormed : m.WellFormed
  closed : m.Closed
  find?_eq : ∀ name, d.states.find? name = (m.description? name).map StateDocument.unplaced
  submachine_eq : ∀ name s, d.states.find? name = some s → s.submachine = none

/-- A simulation stands where a configuration says, in a machine that no other waits for. -/
structure Config.Of (m : Machine) (c : Config) (s : Simulation) : Prop where
  machine : s.current.machine = m
  callers : s.stack.callers = []
  live : s.current.state ∈ m.states.live
  state : s.current.state.name = c.state
  head : s.head = c.head
  stepCount : s.stepCount = c.stepCount
  status : s.status = c.status

namespace Machine.Follows

variable {m : Machine} {d : MachineDocument} {state : State} {c : Config} {s : Simulation}

theorem find?_name (h : m.Follows d) (hstate : state ∈ m.states.live) :
    d.states.find? state.name = some (m.describeState state).unplaced := by
  have hdescription : m.description? state.name = some (m.describeState state) :=
    h.wellFormed.description?_eq_some_iff.mpr ⟨state, hstate, rfl, rfl⟩
  rw [h.find?_eq, hdescription, Option.map_some]

theorem accepts_name (h : m.Follows d) (hstate : state ∈ m.states.live) :
    d.accepts state.name = state.accepting := by
  rw [MachineDocument.accepts, h.find?_name hstate]
  rfl

theorem calls_nothing (h : m.Follows d) (hstate : state ∈ m.states.live) :
    state.submachine = none :=
  h.submachine_eq _ _ (h.find?_name hstate)

theorem rule?_name (h : m.Follows d) (hstate : state ∈ m.states.live) (read : Char) :
    d.rule? state.name read =
      ((state.transitionFor? read).bind m.describe?).bind TransitionDocument.rule? := by
  have hfind := h.closed.find?_transitions hstate (h.wellFormed.live state hstate) read
  rw [MachineDocument.rule?, h.find?_name hstate, Option.bind_some, ← hfind]
  rfl

theorem rule?_of_transition (h : m.Follows d) (hstate : state ∈ m.states.live) {read : Char}
    {t : Transition} (ht : state.transitionFor? read = some t) : ∃ destination,
      m.stateAt? t.destination = some destination ∧
      d.rule? state.name read = some ⟨t.output, t.direction, destination.name⟩ := by
  obtain ⟨destination, hdestination⟩ := h.closed.destination hstate ht
  refine ⟨destination, hdestination, ?_⟩
  have hdescribe := describe?_eq_some_iff.mpr ⟨destination, hdestination, rfl⟩
  have houtput : (t.output.map String.singleton).bind singleChar? = t.output := by
    cases t.output with
    | none => rfl
    | some c => exact singleChar?_eq_some_iff.mpr rfl
  rw [h.rule?_name hstate, ht, Option.bind_some, hdescribe, Option.bind_some,
    TransitionDocument.rule?, Direction.ofCode?_code, houtput]
  rfl

/-- Nothing is called or returned to: a state that is entered is the one the run stands in. -/
theorem settle (h : m.Follows d) (hmachine : s.current.machine = m) (hcallers : s.stack.callers = [])
    (hlive : s.current.state ∈ m.states.live) (hstatus : s.status = .running) : ∃ t,
    s.settle = (.ok (), t) ∧
      (d.enter s.current.state.name s.head s.stepCount).Of m t := by
  have hnone := h.calls_nothing hlive
  have henter := CallStack.enter_of_no_call (p := s.project) hnone s.project.machineCount
  have hunwind : s.stack.unwind = s.stack := CallStack.unwind_of_callers_eq_nil hcallers
  refine ⟨s.returned s.stack, Simulation.settle_eq_ok_iff.mpr ⟨_, henter, rfl⟩, ?_⟩
  have hcurrent : (s.returned s.stack).current = s.current := congrArg CallStack.current hunwind
  constructor
  case machine => rw [hcurrent, hmachine]
  case callers => rw [Simulation.stack_returned, hunwind, hcallers]
  case live => rwa [hcurrent]
  case state => rw [hcurrent]; rfl
  case head => rfl
  case stepCount => rfl
  case status =>
    rw [Simulation.status_returned, hunwind, hstatus, MachineDocument.enter, h.accepts_name hlive]
    rfl

theorem exists_step (h : m.Follows d) (hs : c.Of m s) :
    ∃ outcome t, s.step = (.ok outcome, t) ∧ (d.next c).Of m t := by
  have hstatus := hs.status
  unfold MachineDocument.next
  -- A terminal status stays on both sides.
  by_cases hrunning : c.status = .running
  case neg =>
    have hterminal := Status.isTerminal_eq_true_iff.mpr hrunning
    exact ⟨_, s, Simulation.step_of_isTerminal (hstatus ▸ hterminal), by rwa [if_pos hterminal]⟩
  rw [if_neg (by simp [hrunning, Status.isTerminal])]
  rw [hrunning] at hstatus
  have hread : c.head.read = s.head.read := by rw [hs.head]
  cases htaken : s.current.state.transitionFor? s.head.read with
  | none =>
    have hrule := h.rule?_name hs.live s.head.read
    rw [htaken, hs.state, ← hread] at hrule
    refine ⟨_, _, Simulation.step_of_no_transition
      (Status.isTerminal_eq_false_iff.mpr hstatus) htaken, ?_⟩
    rw [hrule]
    exact { hs with status := rfl }
  | some t =>
    obtain ⟨destination, hdestination, hrule⟩ := h.rule?_of_transition hs.live htaken
    rw [hs.state, ← hread] at hrule
    obtain ⟨u, hsettle, hu⟩ := h.settle (s := s.take t destination) hs.machine hs.callers
      (mem_live_of_stateAt? hdestination) hstatus
    refine ⟨_, u, Simulation.step_of_settle_ok hstatus htaken (hs.machine ▸ hdestination) hsettle,
      ?_⟩
    have hhead : Simulation.act s.head t =
        Rule.act ⟨t.output, t.direction, destination.name⟩ c.head := hs.head ▸ rfl
    simp only [hrule, ← hhead, ← hs.stepCount]
    exact hu

theorem exists_steps (h : m.Follows d) {n : Nat} {c e : Config} (hruns : d.Runs n c e)
    (hs : c.Of m s) : ∃ t, Simulation.Steps n s t ∧ e.Of m t := by
  induction n generalizing c s with
  | zero => exact ⟨s, rfl, (show c = e from hruns) ▸ hs⟩
  | succ n ih =>
    obtain ⟨outcome, t, hstep, ht⟩ := h.exists_step hs
    obtain ⟨u, hsteps, hu⟩ := ih hruns ht
    exact ⟨u, ⟨outcome, t, hstep, hsteps⟩, hu⟩

/-- A run by the table that comes to an end is that of the simulation started on the tape. -/
theorem runsTo (h : m.Follows d) {p : Project} {name : String} (hm : p.machine? name = some m)
    {first : StateDocument} (hfirst : d.states.find? startStateName = some first) {tape : Tape}
    {n : Nat} {e : Config} (hruns : d.Runs n (d.enter startStateName (.start tape) 0) e)
    (he : e.status ≠ .running) : ∃ s t, Simulation.start p name tape = .ok s ∧
      Simulation.RunsTo s e.status t ∧ e.Of m t := by
  obtain ⟨description, hdescription, -⟩ :=
    Option.map_eq_some_iff.mp ((h.find?_eq _).symm.trans hfirst)
  obtain ⟨⟨handle, state⟩, hfound⟩ := h.wellFormed.exists_start?_iff.mpr ⟨_, hdescription⟩
  obtain ⟨hstate, hname⟩ := h.wellFormed.start?_eq_some_iff.mp hfound
  obtain ⟨s, hsettle, hs⟩ := h.settle (s := Simulation.unsettled p tape ⟨m, handle, state⟩) rfl rfl
    (mem_live_of_stateAt? hstate) rfl
  obtain ⟨t, hsteps, ht⟩ := h.exists_steps hruns (hname ▸ hs)
  exact ⟨s, t, Simulation.start_eq_ok_iff.mpr ⟨m, _, hm, Frame.start_of_found hfound, hsettle⟩,
    ht.status ▸ hsteps.runsTo (ht.status ▸ he), ht⟩

end Machine.Follows

end HierarchicalTuring
