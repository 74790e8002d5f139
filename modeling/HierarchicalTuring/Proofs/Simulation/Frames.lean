import HierarchicalTuring.Proofs.Project.Built
import HierarchicalTuring.Proofs.Simulation.Run
import Mathlib.Data.List.Chain

/-! # The frames of a run

What holds of the frames of a simulation after its start and after every step.

* `Frame.start_eq_ok_iff` and `Frame.callee?_eq_some_iff`, with their counterparts for failures, say
  which frame a machine is entered with.
* `CallStack.Linked p name c`: every frame of the stack is valid in the project, every caller is in
  a state that calls the machine above it, and the outermost machine has a given name. Entering and
  returning keep this (`Linked.enter`, `Linked.unwindFrom`).
* `Simulation.Linked`: a simulation of the project with its stack so linked. Every step keeps it, also
  one that fails (`Linked.step`).
* `Simulation.Settled`: a stack so linked, at rest as the status says. A start establishes it
  (`settled_of_start`) and a step keeps it (`Settled.step`).
-/

set_option autoImplicit false

namespace HierarchicalTuring

namespace Frame

variable {p : Project} {frame callee : Frame} {m : Machine} {e : SimulationError}

/-! ## Entering machines -/

theorem start_eq_ok_iff :
    start m = .ok frame ↔ frame.machine = m ∧ m.start? = some (frame.handle, frame.state) := by
  unfold start
  cases hstart : m.start? with
  | none => simp
  | some found =>
    simp only [Except.ok.injEq, Option.some.injEq]
    constructor
    · rintro rfl
      exact ⟨rfl, rfl⟩
    · rintro ⟨rfl, rfl⟩
      rfl

theorem start_of_found {handle : Handle} {state : State} (h : m.start? = some (handle, state)) :
    start m = .ok ⟨m, handle, state⟩ :=
  start_eq_ok_iff.mpr ⟨rfl, h⟩

theorem start_eq_error_iff :
    start m = .error e ↔ m.start? = none ∧ e = .startStateNotFound m.name := by
  unfold start
  cases m.start? with
  | none => simp [eq_comm]
  | some found => simp

theorem callee?_of_none (h : frame.state.submachine = none) : frame.callee? p = .ok none := by
  simp only [callee?, h]

theorem callee?_of_unknown {name : String} (h : frame.state.submachine = some name)
    (hm : p.machine? name = none) :
    frame.callee? p =
      .error (.submachineNotFound name frame.state.name frame.machine.name) := by
  simp only [callee?, h, hm]

theorem callee?_of_known {name : String} (h : frame.state.submachine = some name)
    (hm : p.machine? name = some m) :
    frame.callee? p = (start m).map fun callee => some (name, callee) := by
  simp only [callee?, h, hm]

theorem callee?_eq_some_iff {name : String} :
    frame.callee? p = .ok (some (name, callee)) ↔ frame.state.submachine = some name ∧
      ∃ m, p.machine? name = some m ∧ start m = .ok callee := by
  constructor
  · intro h
    cases hsub : frame.state.submachine with
    | none =>
      rw [callee?_of_none hsub] at h
      cases h
    | some called =>
      cases hm : p.machine? called with
      | none =>
        rw [callee?_of_unknown hsub hm] at h
        cases h
      | some m =>
        rw [callee?_of_known hsub hm] at h
        cases hstart : start m with
        | error e => simp [hstart, Except.map] at h
        | ok entered =>
          rw [hstart] at h
          cases h
          exact ⟨rfl, m, hm, hstart⟩
  · rintro ⟨hsub, m, hm, hstart⟩
    rw [callee?_of_known hsub hm, hstart]
    rfl

theorem callee?_eq_error_iff :
    frame.callee? p = .error e ↔ ∃ name, frame.state.submachine = some name ∧
      ((p.machine? name = none ∧ e = .submachineNotFound name frame.state.name frame.machine.name) ∨
        ∃ m, p.machine? name = some m ∧ start m = .error e) := by
  constructor
  · intro h
    cases hsub : frame.state.submachine with
    | none =>
      rw [callee?_of_none hsub] at h
      cases h
    | some called =>
      refine ⟨called, rfl, ?_⟩
      cases hm : p.machine? called with
      | none =>
        rw [callee?_of_unknown hsub hm] at h
        cases h
        exact .inl ⟨rfl, rfl⟩
      | some m =>
        rw [callee?_of_known hsub hm] at h
        cases hstart : start m with
        | error e' =>
          rw [hstart] at h
          cases h
          exact .inr ⟨m, rfl, hstart⟩
        | ok entered =>
          rw [hstart] at h
          cases h
  · rintro ⟨name, hsub, ⟨hm, rfl⟩ | ⟨m, hm, hstart⟩⟩
    · exact callee?_of_unknown hsub hm
    · rw [callee?_of_known hsub hm, hstart]
      rfl

/-! ## Valid frames -/

/-- The machine is one of the project, and the state is the one its handle stands for. -/
structure Valid (p : Project) (frame : Frame) : Prop where
  machine?_eq : p.machine? frame.machine.name = some frame.machine
  stateAt?_eq : frame.machine.stateAt? frame.handle = some frame.state

theorem Valid.wellFormed (h : frame.Valid p) (hp : p.WellFormed) : frame.machine.WellFormed :=
  hp.of_machine? h.machine?_eq

theorem Valid.mem_live (h : frame.Valid p) : frame.state ∈ frame.machine.states.live :=
  Machine.mem_live_of_stateAt? h.stateAt?_eq

theorem Valid.indexed (h : frame.Valid p) (hp : p.WellFormed) : frame.state.Indexed :=
  (h.wellFormed hp).indexed_of_stateAt? h.stateAt?_eq

/-- A frame stays valid when its machine is in another of its states. -/
theorem Valid.moved (h : frame.Valid p) {handle : Handle} {state : State}
    (hstate : frame.machine.stateAt? handle = some state) :
    Valid p { frame with handle, state } :=
  ⟨h.machine?_eq, hstate⟩

theorem valid_of_start (hp : p.WellFormed) {name : String} (hm : p.machine? name = some m)
    (hstart : start m = .ok frame) : frame.Valid p ∧ frame.machine.name = name := by
  obtain ⟨rfl, hfound⟩ := start_eq_ok_iff.mp hstart
  have hname := (hp.machine?_eq_some_iff.mp hm).2
  exact ⟨⟨hname ▸ hm, ((hp.of_machine? hm).start?_eq_some_iff.mp hfound).1⟩, hname⟩

/-- The state of the outer frame calls the machine of the inner one. -/
def Calls (outer inner : Frame) : Prop :=
  outer.state.submachine = some inner.machine.name

end Frame

namespace CallStack

/-! ## Linked stacks -/

/-- A frame and its callers, the innermost first: all valid, each one called by the next, and the
last one of the machine with a given name. -/
inductive Linked (p : Project) (name : String) : Frame → List Frame → Prop
  | outermost {frame : Frame} :
      frame.Valid p → frame.machine.name = name → Linked p name frame []
  | called {inner outer : Frame} {callers : List Frame} :
      inner.Valid p → outer.Calls inner → Linked p name outer callers →
      Linked p name inner (outer :: callers)

namespace Linked

variable {p : Project} {name : String} {current : Frame} {callers : List Frame}

theorem valid_current (h : Linked p name current callers) : current.Valid p := by
  cases h with
  | outermost hvalid _ => exact hvalid
  | called hvalid _ _ => exact hvalid

theorem valid (h : Linked p name current callers) :
    ∀ frame ∈ current :: callers, frame.Valid p := by
  induction h with
  | outermost hvalid _ => simpa using hvalid
  | called hvalid _ _ ih => exact List.forall_mem_cons.mpr ⟨hvalid, ih⟩

theorem isChain (h : Linked p name current callers) :
    (current :: callers).IsChain fun inner outer => outer.Calls inner := by
  induction h with
  | outermost _ _ => exact List.IsChain.singleton _
  | called _ hcalls _ ih => exact List.IsChain.cons_cons hcalls ih

theorem getLast?_name (h : Linked p name current callers) :
    ((current :: callers).getLast?).map (fun frame => frame.machine.name) = some name := by
  induction h with
  | outermost _ hname => simpa using hname
  | called _ _ _ ih => rwa [List.getLast?_cons_cons]

/-- The current machine may come to another of its states. -/
theorem moved (h : Linked p name current callers) {handle : Handle} {state : State}
    (hstate : current.machine.stateAt? handle = some state) :
    Linked p name { current with handle, state } callers := by
  cases h with
  | outermost hvalid hname => exact .outermost (hvalid.moved hstate) hname
  | called hvalid hcalls hlinked => exact .called (hvalid.moved hstate) hcalls hlinked

/-- Returning goes down to frames that were linked already. -/
theorem unwindFrom (h : Linked p name current callers) :
    Linked p name (unwindFrom current callers).current (unwindFrom current callers).callers := by
  induction h with
  | outermost hvalid hname => exact .outermost hvalid hname
  | @called inner outer callers hvalid hcalls hlinked ih =>
    by_cases haccepting : inner.state.accepting = true
    · rw [unwindFrom_cons_of_accepting haccepting]
      exact ih
    · rw [unwindFrom_of_not_accepting (Bool.not_eq_true _ ▸ haccepting)]
      exact .called hvalid hcalls hlinked

end Linked

/-! ## Following calls -/

theorem enter_of_no_call {p : Project} {c : CallStack} (h : c.current.state.submachine = none)
    (remaining : Nat) : c.enter p remaining = (.ok (), c) := by
  have hcallee : c.current.callee? p = .ok none := Frame.callee?_of_none h
  cases remaining <;> simp only [enter, hcallee]

theorem enter_succ_of_callee {p : Project} {c : CallStack} {name : String} {callee : Frame}
    (h : c.current.callee? p = .ok (some (name, callee))) (remaining : Nat) :
    c.enter p (remaining + 1) = (c.push callee).enter p remaining := by
  simp only [enter, h]

/-- What pushing a called frame keeps, following calls keeps. -/
theorem enter_keeps {p : Project} {P : CallStack → Prop}
    (hpush : ∀ {c : CallStack} {name : String} {callee : Frame},
      P c → c.current.callee? p = .ok (some (name, callee)) → P (c.push callee))
    {c : CallStack} (hc : P c) (remaining : Nat) : P (c.enter p remaining).2 := by
  induction remaining generalizing c with
  | zero =>
    unfold enter
    rcases c.current.callee? p with e | _ | ⟨name, callee⟩ <;> exact hc
  | succ remaining ih =>
    unfold enter
    rcases hcallee : c.current.callee? p with e | _ | ⟨name, callee⟩
    · exact hc
    · exact hc
    · exact ih (hpush hc hcallee)

theorem Linked.enter {p : Project} (hp : p.WellFormed) {name : String} {c : CallStack}
    (h : Linked p name c.current c.callers) (remaining : Nat) :
    Linked p name (c.enter p remaining).2.current (c.enter p remaining).2.callers := by
  refine enter_keeps (P := fun c => Linked p name c.current c.callers) ?_ h remaining
  intro c called callee hlinked hcallee
  obtain ⟨hsubmachine, m, hm, hstart⟩ := Frame.callee?_eq_some_iff.mp hcallee
  obtain ⟨hvalid, hname⟩ := Frame.valid_of_start hp hm hstart
  refine .called hvalid ?_ hlinked
  show c.current.state.submachine = some callee.machine.name
  rw [hname, hsubmachine]

end CallStack

namespace Simulation

/-! ## Linked simulations -/

/-- A simulation of the project whose stack is linked. -/
structure Linked (p : Project) (name : String) (s : Simulation) : Prop where
  project_eq : s.project = p
  stack : CallStack.Linked p name s.stack.current s.stack.callers

namespace Linked

variable {p : Project} {name : String} {s : Simulation}

theorem settle (hp : p.WellFormed) (h : s.Linked p name) : s.settle.2.Linked p name := by
  have hentered := h.stack.enter hp s.project.machineCount
  rw [← h.project_eq] at hentered
  rcases hs : s.settle with ⟨_ | ⟨⟩, t⟩
  · obtain ⟨stack, henter, rfl⟩ := settle_eq_error_iff.mp hs
    rw [henter] at hentered
    exact ⟨h.project_eq, h.project_eq ▸ hentered⟩
  · obtain ⟨stack, henter, rfl⟩ := settle_eq_ok_iff.mp hs
    rw [henter] at hentered
    exact ⟨h.project_eq, (h.project_eq ▸ hentered).unwindFrom⟩

theorem take (h : s.Linked p name) {t : Transition} {destination : State}
    (hdestination : s.current.machine.stateAt? t.destination = some destination) :
    (s.take t destination).Linked p name :=
  ⟨h.project_eq, h.stack.moved hdestination⟩

theorem step (hp : p.WellFormed) (h : s.Linked p name) : s.step.2.Linked p name := by
  rcases hs : s.step with ⟨_ | _, t⟩
  · obtain ⟨-, _, -, ⟨-, -, rfl⟩ | ⟨_, hdestination, hsettle⟩⟩ := step_error_cases hs
    · exact h
    · have hsettled := (h.take hdestination).settle hp
      rwa [hsettle] at hsettled
  · obtain ⟨-, -, rfl⟩ | ⟨-, -, -, rfl⟩ | ⟨-, _, _, -, hdestination, hsettle, -⟩ := step_ok_cases hs
    · exact h
    · exact ⟨h.project_eq, h.stack⟩
    · have hsettled := (h.take hdestination).settle hp
      rwa [hsettle] at hsettled

theorem steps (hp : p.WellFormed) (h : s.Linked p name) (n : Nat) :
    Linked p name ((fun t => t.step.2)^[n] s) := by
  induction n generalizing s with
  | zero => exact h
  | succ n ih => exact ih (h.step hp)

end Linked

/-! ## Simulations at rest -/

/-- The stack is linked, and at rest as the status says. -/
structure Settled (p : Project) (name : String) (s : Simulation) : Prop where
  project_eq : s.project = p
  linked : CallStack.Linked p name s.stack.current s.stack.callers
  running : s.status = .running → s.current.state.accepting = false
  rejected : s.status = .rejected →
    s.current.state.accepting = false ∧ s.current.state.transitionFor? s.head.read = none
  accepted : s.status = .accepted → s.current.state.accepting = true ∧ s.stack.callers = []

variable {p : Project} {name : String} {s t : Simulation}

theorem settled_of_settle (hp : p.WellFormed) (hproject : s.project = p)
    (hlinked : CallStack.Linked p name s.stack.current s.stack.callers) (hs : s.status = .running)
    (h : s.settle = (.ok (), t)) : t.Settled p name := by
  have hstatus := status_of_settle hs h
  obtain ⟨stack, henter, rfl⟩ := settle_eq_ok_iff.mp h
  have hstack : CallStack.Linked p name stack.current stack.callers := by
    have hentered := hlinked.enter hp s.project.machineCount
    rw [← hproject] at hentered ⊢
    rwa [henter] at hentered
  rcases hstatus with ⟨haccepting, haccepted⟩ | ⟨hnot, hrunning⟩
  · refine ⟨hproject, hstack.unwindFrom, ?_, ?_, fun _ => ⟨haccepting, ?_⟩⟩
    · intro hrunning
      rw [haccepted] at hrunning
      cases hrunning
    · intro hrejected
      rw [haccepted] at hrejected
      cases hrejected
    · exact CallStack.callers_unwindFrom_of_accepting stack.current stack.callers haccepting
  · refine ⟨hproject, hstack.unwindFrom, fun _ => hnot, ?_, ?_⟩
    · intro hrejected
      rw [hrunning] at hrejected
      cases hrejected
    · intro haccepted
      rw [hrunning] at haccepted
      cases haccepted

theorem settled_of_start (hp : p.WellFormed) {tape : Tape} (h : start p name tape = .ok s) :
    s.Settled p name := by
  obtain ⟨m, frame, hm, hframe, hsettle⟩ := start_eq_ok_iff.mp h
  obtain ⟨hvalid, hname⟩ := Frame.valid_of_start hp hm hframe
  exact settled_of_settle hp rfl (.outermost hvalid hname) rfl hsettle

theorem linked_of_start (hp : p.WellFormed) {tape : Tape} (h : start p name tape = .ok s) :
    s.Linked p name :=
  ⟨(settled_of_start hp h).project_eq, (settled_of_start hp h).linked⟩

theorem Settled.step (hp : p.WellFormed) (h : s.Settled p name) {outcome : Outcome}
    (hstep : s.step = (.ok outcome, t)) : t.Settled p name := by
  obtain ⟨-, -, rfl⟩ | ⟨hs, hnone, -, rfl⟩ |
    ⟨hs, transition, destination, -, hdestination, hsettle, -⟩ := step_ok_cases hstep
  · exact h
  · exact ⟨h.project_eq, h.linked, nofun, fun _ => ⟨h.running hs, hnone⟩, nofun⟩
  · have hmoved := h.linked.moved hdestination
    exact settled_of_settle (s := s.take transition destination) hp h.project_eq hmoved hs hsettle

theorem settled_of_steps (hp : p.WellFormed) {tape : Tape} (hstart : start p name tape = .ok s)
    {n : Nat} (hsteps : Steps n s t) : t.Settled p name :=
  hsteps.keeps (fun hs => hs.step hp) (settled_of_start hp hstart)

/-! ## Frames after any number of steps -/

/-- After any number of steps of a machine of a project: every frame is valid, every frame but the
outermost is called by the one before it, and the outermost frame is of that machine. The status
says what the top state is like, and it is final unless the simulation runs. -/
theorem frames_of_steps {next : Identity} {tape : Tape} {n : Nat} (hp : Project.Built next p)
    (hstart : start p name tape = .ok s) (hsteps : Steps n s t) :
    (∃ outermost inner, t.frames = outermost :: inner ∧
      p.machine? name = some outermost.machine ∧ outermost.machine.name = name) ∧
    (∀ frame ∈ t.frames, p.machine? frame.machine.name = some frame.machine ∧
      frame.machine.stateAt? frame.handle = some frame.state) ∧
    (t.frames.IsChain fun outer inner => outer.state.submachine = some inner.machine.name) ∧
    (t.status = .running → t.current.state.accepting = false) ∧
    (t.status = .rejected → t.current.state.accepting = false ∧
      t.current.state.transitionFor? t.head.read = none ∧
      ∀ stored ∈ t.current.state.transitions, stored.2.reads t.head.read = false) ∧
    (t.status = .accepted → ∃ frame, t.frames = [frame] ∧ frame.state.accepting = true) ∧
    (t.status ≠ .running → t.step = (.ok (.halts t.status), t) ∧
      (∀ limit, t.runFor limit = (.ok t.status, t)) ∧
      (∀ status u, RunsTo t status u ↔ status = t.status ∧ u = t) ∧
      ∀ later u, Steps later t u → u = t) := by
  have hwf := hp.wellFormed
  have hsettled := settled_of_steps hwf hstart hsteps
  have hframes : t.frames = (t.stack.current :: t.stack.callers).reverse := by
    rw [frames, CallStack.frames, List.reverse_cons]
  refine ⟨?_, ?_, ?_, hsettled.running, ?_, ?_, ?_⟩
  · have hlast := hsettled.linked.getLast?_name
    rw [← List.head?_reverse, ← hframes, Option.map_eq_some_iff] at hlast
    obtain ⟨outermost, houtermost, hname⟩ := hlast
    obtain ⟨inner, hinner⟩ := List.head?_eq_some_iff.mp houtermost
    have hvalid := hsettled.linked.valid outermost (by
      rw [← List.mem_reverse, ← hframes, hinner]
      exact List.mem_cons_self)
    exact ⟨outermost, inner, hinner, hname ▸ hvalid.machine?_eq, hname⟩
  · intro frame hframe
    rw [hframes, List.mem_reverse] at hframe
    have hvalid := hsettled.linked.valid frame hframe
    exact ⟨hvalid.machine?_eq, hvalid.stateAt?_eq⟩
  · rw [hframes, List.isChain_reverse]
    exact hsettled.linked.isChain
  · intro hrejected
    obtain ⟨hnot, hnone⟩ := hsettled.rejected hrejected
    refine ⟨hnot, hnone, fun stored hstored => ?_⟩
    have hunread := (hsettled.linked.valid_current.indexed hwf).transitionFor?_eq_none_iff.mp hnone
    simpa [Transition.reads] using hunread stored hstored
  · intro haccepted
    obtain ⟨haccepting, hcallers⟩ := hsettled.accepted haccepted
    refine ⟨t.stack.current, ?_, haccepting⟩
    rw [hframes, hcallers]
    rfl
  · intro hterminal
    refine ⟨step_of_isTerminal (Status.isTerminal_eq_true_iff.mpr hterminal),
      runFor_of_terminal hterminal, fun status u => runsTo_iff_of_terminal hterminal, ?_⟩
    intro later u hlater
    exact hlater.eq_of_terminal hterminal

/-- After two steps the machine `pair` runs, called by `main`. -/
theorem frames_of_sample : ∃ s t, start Project.sample.1 "main" (.ofText "111+" '_') = .ok s ∧
    Steps 2 s t ∧ t.frames.length = 2 ∧
    (t.frames.IsChain fun outer inner => outer.state.submachine = some inner.machine.name) ∧
    t.current.state.accepting = false := by
  let s := ((start Project.sample.1 "main" (.ofText "111+" '_')).toOption).get rfl
  have hstart : start Project.sample.1 "main" (.ofText "111+" '_') = .ok s := rfl
  have hsteps : Steps 2 s s.step.2.step.2 :=
    .succ_of_isSome (by decide +kernel) (.succ_of_isSome (by decide +kernel) rfl)
  have hlength : s.step.2.step.2.frames.length = 2 := by decide +kernel
  have hstatus : s.step.2.step.2.status = .running := by decide +kernel
  obtain ⟨-, -, hchain, hrunning, -⟩ := frames_of_steps Project.built_sample hstart hsteps
  exact ⟨s, _, hstart, hsteps, hlength, hchain, hrunning hstatus⟩

end Simulation

end HierarchicalTuring
