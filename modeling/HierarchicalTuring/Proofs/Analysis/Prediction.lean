import HierarchicalTuring.Analysis.Basic
import HierarchicalTuring.Proofs.Analysis.CallChain
import HierarchicalTuring.Proofs.Simulation.Frames

/-! # What an analysis predicts

An analysis looks at names of start states only, and a simulation counts the machines it enters.

* `Project.Callable`: every machine can be entered, every call is of a known machine, and every
  chain of calls ends. This is what an analysis without such findings says (`callable_of_analyze`).
* In a callable project entering a machine goes well (`Callable.enter_ok`), so a closed project can
  be simulated without an end (`Callable.step_ok`, `Callable.start_ok`).
* Machines that call one another and nothing else (`Project.CallsWithin`) cannot be entered, however
  many calls are followed (`CallStack.enter_of_callsWithin`).
-/

set_option autoImplicit false

namespace HierarchicalTuring

namespace Project

variable {p : Project}

/-! ## Findings -/

theorem missingStartState_mem_analyze {name : String} :
    .missingStartState name ∈ p.analyze ↔
      ∃ m ∈ p.machines.live, m.start? = none ∧ m.name = name := by
  rw [mem_analyze]
  simp [missingStartStates, unknownSubmachines, unknownCall?, unreachableStates, unreachableIssue?,
    submachineCycles, Option.bind_eq_some_iff, and_assoc]

theorem unknownSubmachine_mem_analyze {machine state submachine : String} :
    .unknownSubmachine machine state submachine ∈ p.analyze ↔
      ∃ m ∈ p.machines.live, ∃ s ∈ m.states.live, s.submachine = some submachine ∧
        p.machine? submachine = none ∧ m.name = machine ∧ s.name = state := by
  rw [mem_analyze]
  simp [missingStartStates, unknownSubmachines, unknownCall?, unreachableStates, unreachableIssue?,
    submachineCycles, Option.bind_eq_some_iff]

theorem submachineCycle_mem_analyze {names : List String} :
    .submachineCycle names ∈ p.analyze ↔ names ∈ p.callLoops := by
  rw [mem_analyze]
  simp [missingStartStates, unknownSubmachines, unknownCall?, unreachableStates, unreachableIssue?,
    submachineCycles, Option.bind_eq_some_iff]

/-- Every machine can be entered, every call is of a known machine, and every chain of calls between
start states is shorter than the number of machines. -/
structure Callable (p : Project) : Prop where
  start : ∀ m ∈ p.machines.live, ∃ found, m.start? = some found
  known : ∀ m ∈ p.machines.live, ∀ state ∈ m.states.live, ∀ name, state.submachine = some name →
    ∃ callee, p.machine? name = some callee
  ends : ∀ m ∈ p.machines.live, ∃ k, p.CallsEnd m k ∧ k < p.machineCount

theorem callable_of_analyze (hp : p.WellFormed)
    (hstart : ∀ name, .missingStartState name ∉ p.analyze)
    (hknown : ∀ machine state submachine, .unknownSubmachine machine state submachine ∉ p.analyze)
    (hcycle : ∀ names, .submachineCycle names ∉ p.analyze) : p.Callable where
  start := by
    intro m hm
    cases hfound : m.start? with
    | none => exact absurd (missingStartState_mem_analyze.mpr ⟨m, hm, hfound, rfl⟩) (hstart m.name)
    | some found => exact ⟨found, rfl⟩
  known := by
    intro m hm state hstate name hname
    cases hcallee : p.machine? name with
    | none =>
      have hfinding := unknownSubmachine_mem_analyze.mpr
        ⟨m, hm, state, hstate, hname, hcallee, rfl, rfl⟩
      exact absurd hfinding (hknown m.name state.name name)
    | some callee => exact ⟨callee, rfl⟩
  ends := by
    intro m hm
    cases hloop : p.loopFrom? m with
    | none => exact callsEnd_of_loopFrom? hp hm hloop
    | some loop =>
      have hfinding := submachineCycle_mem_analyze.mpr (mem_callLoops.mpr ⟨m, hm, loop, hloop, rfl⟩)
      exact absurd hfinding (hcycle _)

/-! ## Calls that end -/

namespace Callable

/-- Entering the machine that a state calls. -/
theorem enter_succ (hp : p.WellFormed) (h : p.Callable) {m : Machine} {c : CallStack}
    {name : String} (hsub : c.current.state.submachine = some name)
    (hname : p.machine? name = some m) :
    ∃ callee, callee.machine = m ∧ m.start? = some (callee.handle, callee.state) ∧
      callee.state ∈ m.states.live ∧
      ∀ remaining, c.enter p (remaining + 1) = (c.push callee).enter p remaining := by
  have hm := (hp.machine?_eq_some_iff.mp hname).1
  obtain ⟨⟨handle, state⟩, hfound⟩ := h.start m hm
  have hcallee := Frame.callee?_eq_some_iff.mpr ⟨hsub, m, hname, Frame.start_of_found hfound⟩
  have hstate := ((hp.live m hm).start?_eq_some_iff.mp hfound).1
  exact ⟨⟨m, handle, state⟩, rfl, hfound, Machine.mem_live_of_stateAt? hstate,
    CallStack.enter_succ_of_callee hcallee⟩

/-- A call of a machine whose chain of calls ends is followed to its end. -/
theorem enter_of_callsEnd (hp : p.WellFormed) (h : p.Callable) {k : Nat} {m : Machine}
    (hends : p.CallsEnd m k) {c : CallStack} {name : String}
    (hsub : c.current.state.submachine = some name) (hname : p.machine? name = some m)
    {remaining : Nat} (hk : k < remaining) : ∃ stack, c.enter p remaining = (.ok (), stack) := by
  obtain ⟨remaining, rfl⟩ : ∃ r, remaining = r + 1 := ⟨remaining - 1, by omega⟩
  -- The induction is on the chain of calls. Each link of it takes one frame of those remaining.
  induction hends generalizing c name remaining with
  | @last m hlast =>
    obtain ⟨callee, -, hfound, hlive, henter⟩ := h.enter_succ hp hsub hname
    have hnone : callee.state.submachine = none := by
      cases hcalled : callee.state.submachine with
      | none => rfl
      | some called =>
        have hm := (hp.machine?_eq_some_iff.mp hname).1
        obtain ⟨next, hnext⟩ := h.known m hm callee.state hlive called hcalled
        rw [next?_eq_some_iff.mpr ⟨_, _, called, hfound, hcalled, hnext⟩] at hlast
        cases hlast
    exact ⟨c.push callee, by rw [henter, CallStack.enter_of_no_call hnone]⟩
  | @call m next k hnext _ ih =>
    obtain ⟨callee, -, hfound, -, henter⟩ := h.enter_succ hp hsub hname
    obtain ⟨handle, state, called, hfound', hcalled, hnext'⟩ := next?_eq_some_iff.mp hnext
    rw [hfound] at hfound'
    cases hfound'
    obtain ⟨remaining, rfl⟩ : ∃ r, remaining = r + 1 := ⟨remaining - 1, by omega⟩
    obtain ⟨stack, hstack⟩ := ih (c := c.push callee) hcalled hnext' remaining (by omega)
    exact ⟨stack, by rw [henter, hstack]⟩

theorem enter_ok (hp : p.WellFormed) (h : p.Callable) {c : CallStack} (hc : c.current.Valid p) :
    ∃ stack, c.enter p p.machineCount = (.ok (), stack) := by
  cases hsub : c.current.state.submachine with
  | none => exact ⟨c, CallStack.enter_of_no_call hsub _⟩
  | some name =>
    have hlive := (hp.machine?_eq_some_iff.mp hc.machine?_eq).1
    obtain ⟨m, hname⟩ := h.known c.current.machine hlive c.current.state hc.mem_live name hsub
    obtain ⟨k, hends, hk⟩ := h.ends m (hp.machine?_eq_some_iff.mp hname).1
    exact h.enter_of_callsEnd hp hends hsub hname hk

theorem start_ok (hp : p.WellFormed) (h : p.Callable) {m : Machine} (hm : m ∈ p.machines.live)
    (tape : Tape) : ∃ s, Simulation.start p m.name tape = .ok s := by
  have hname : p.machine? m.name = some m := hp.machine?_eq_some_iff.mpr ⟨hm, rfl⟩
  obtain ⟨⟨handle, state⟩, hfound⟩ := h.start m hm
  have hstart := Frame.start_of_found hfound
  obtain ⟨stack, henter⟩ := h.enter_ok hp (c := ⟨⟨m, handle, state⟩, []⟩)
    (Frame.valid_of_start hp hname hstart).1
  exact ⟨_, Simulation.start_eq_ok_iff.mpr
    ⟨m, _, hname, hstart, Simulation.settle_eq_ok_iff.mpr ⟨stack, henter, rfl⟩⟩⟩

/-- A simulation of a closed project can always go on. -/
theorem step_ok (hp : p.WellFormed) (h : p.Callable) (hclosed : p.Closed) {s : Simulation}
    {name : String} (hs : s.Settled p name) : ∃ outcome t, s.step = (.ok outcome, t) := by
  by_cases hrunning : s.status = .running
  · have hvalid : s.current.Valid p := hs.linked.valid_current
    cases hread : s.current.state.transitionFor? s.head.read with
    | none =>
      exact ⟨_, _, (Simulation.step_eq_rejected_iff hrunning).mpr ⟨hread, rfl⟩⟩
    | some transition =>
      have hm := hclosed _ (hp.machine?_eq_some_iff.mp hvalid.machine?_eq).1
      obtain ⟨destination, hdestination⟩ := hm.destination hvalid.mem_live hread
      obtain ⟨stack, henter⟩ := h.enter_ok hp (c := (s.take transition destination).stack)
        (hvalid.moved hdestination)
      have hproject : (s.take transition destination).project = p := hs.project_eq
      have hsettle := Simulation.settle_eq_ok_iff.mpr ⟨stack, hproject ▸ henter, rfl⟩
      exact ⟨_, _, Simulation.step_of_settle_ok hrunning hread hdestination hsettle⟩
  · exact ⟨_, _, Simulation.step_of_isTerminal (Status.isTerminal_eq_true_iff.mpr hrunning)⟩

theorem steps_ok (hp : p.WellFormed) (h : p.Callable) (hclosed : p.Closed) {m : Machine}
    (hm : m ∈ p.machines.live) (tape : Tape) :
    ∃ s, Simulation.start p m.name tape = .ok s ∧ ∀ n, ∃ t, Simulation.Steps n s t := by
  obtain ⟨s, hs⟩ := h.start_ok hp hm tape
  refine ⟨s, hs, fun n => ?_⟩
  obtain ⟨t, ht, -⟩ := Simulation.Steps.exists_of_keeps (P := fun u => u.Settled p m.name)
    (fun hu => by
      obtain ⟨outcome, t, hstep⟩ := h.step_ok hp hclosed hu
      exact ⟨outcome, t, hstep, hu.step hp hstep⟩) n (Simulation.settled_of_start hp hs)
  exact ⟨t, ht⟩

end Callable

end Project

/-! ## Calls that do not end -/

/-- Each of the machines can be entered, and its start state calls one of them. -/
def Project.CallsWithin (p : Project) (names : List String) : Prop :=
  ∀ name ∈ names, ∃ m frame called, p.machine? name = some m ∧ Frame.start m = .ok frame ∧
    frame.state.submachine = some called ∧ called ∈ names

/-- Calls among such machines are followed as far as they may be. -/
theorem CallStack.enter_of_callsWithin {p : Project} {names : List String}
    (hnames : p.CallsWithin names) {c : CallStack} {name : String}
    (hsub : c.current.state.submachine = some name) (hmem : name ∈ names) (remaining : Nat) :
    ∃ entered ∈ names, ∃ stack, c.enter p remaining =
      (.error (.infiniteSubmachineLoop entered (p.machineCount + 1)), stack) := by
  induction remaining generalizing c name with
  | zero =>
    obtain ⟨m, callee, -, hname, hstart, -, -⟩ := hnames name hmem
    have hcallee := Frame.callee?_eq_some_iff.mpr ⟨hsub, m, hname, hstart⟩
    exact ⟨name, hmem, c, by simp only [enter, hcallee]⟩
  | succ remaining ih =>
    obtain ⟨m, callee, called, hname, hstart, hcalled, hcalledmem⟩ := hnames name hmem
    have hcallee := Frame.callee?_eq_some_iff.mpr ⟨hsub, m, hname, hstart⟩
    rw [enter_succ_of_callee hcallee]
    exact ih (c := c.push callee) hcalled hcalledmem

namespace Project

variable {p : Project}

theorem callsWithin_of_callLoops (hp : p.WellFormed) {loop : List String}
    (hloop : loop ∈ p.callLoops) : p.CallsWithin loop := by
  obtain ⟨m, hm, found, hfound, rfl⟩ := mem_callLoops.mp hloop
  have hcircle := isLoop_of_loopFrom? hp hm hfound
  intro name hname
  obtain ⟨m', next, hm', hnext, hmem⟩ := hcircle.exists_next (mem_rotateToLeast.mp hname)
  obtain ⟨handle, state, called, hstart, hcalled, hcallednext⟩ := next?_eq_some_iff.mp hnext
  refine ⟨m', _, called, hm', Frame.start_of_found hstart, hcalled, mem_rotateToLeast.mpr ?_⟩
  exact (hp.machine?_eq_some_iff.mp hcallednext).2 ▸ hmem

theorem start_of_missingStartState (hp : p.WellFormed) {name : String}
    (h : .missingStartState name ∈ p.analyze) (tape : Tape) :
    Simulation.start p name tape = .error (.startStateNotFound name) := by
  obtain ⟨m, hm, hnone, rfl⟩ := missingStartState_mem_analyze.mp h
  have hname : p.machine? m.name = some m := hp.machine?_eq_some_iff.mpr ⟨hm, rfl⟩
  have hstart : Frame.start m = .error (.startStateNotFound m.name) :=
    Frame.start_eq_error_iff.mpr ⟨hnone, rfl⟩
  simp only [Simulation.start, hname, hstart]

theorem start_of_submachineCycle (hp : p.WellFormed) {names : List String}
    (h : .submachineCycle names ∈ p.analyze) {name : String} (hname : name ∈ names) (tape : Tape) :
    ∃ entered ∈ names, Simulation.start p name tape =
      .error (.infiniteSubmachineLoop entered (p.machineCount + 1)) := by
  have hwithin := callsWithin_of_callLoops hp (submachineCycle_mem_analyze.mp h)
  obtain ⟨m, frame, called, hm, hframe, hcalled, hmem⟩ := hwithin name hname
  obtain ⟨entered, hentered, stack, henter⟩ := CallStack.enter_of_callsWithin hwithin
    (c := ⟨frame, []⟩) hcalled hmem p.machineCount
  have hsettle := Simulation.settle_eq_error_iff
    (s := Simulation.unsettled p tape frame).mpr ⟨stack, henter, rfl⟩
  exact ⟨entered, hentered, by rw [Simulation.start_of_frame hm hframe, hsettle]⟩

/-! ## The prediction -/

/-- Without findings about start states, calls and loops of calls, every machine of a closed project
can be started, and no step ever fails; a project that documents describe is closed. A finding about
a start state or a loop means that the machine cannot be started. -/
theorem analyze_predicts_errors {next : Identity} (hp : p.Built next) :
    ((p.Closed ∨ ∃ first documents, ofDocuments first documents = .ok (p, next)) →
      (∀ name, .missingStartState name ∉ p.analyze) →
      (∀ machine state submachine, .unknownSubmachine machine state submachine ∉ p.analyze) →
      (∀ names, .submachineCycle names ∉ p.analyze) →
      ∀ m ∈ p.machines.live, ∀ tape, ∃ s, Simulation.start p m.name tape = .ok s ∧
        ∀ n, ∃ t, Simulation.Steps n s t) ∧
    (∀ name, .missingStartState name ∈ p.analyze →
      ∀ tape, Simulation.start p name tape = .error (.startStateNotFound name)) ∧
    (∀ names, .submachineCycle names ∈ p.analyze → ∀ name ∈ names,
      ∀ tape, ∃ entered ∈ names, Simulation.start p name tape =
        .error (.infiniteSubmachineLoop entered (p.machineCount + 1))) := by
  have hwf := hp.wellFormed
  refine ⟨?_, fun name h tape => start_of_missingStartState hwf h tape,
    fun names h name hname tape => start_of_submachineCycle hwf h hname tape⟩
  intro hclosed hstart hknown hcycle m hm tape
  have hclosed' : p.Closed := by
    rcases hclosed with hclosed | ⟨first, documents, hdescribed⟩
    · exact hclosed
    · exact (ofDocuments_keeps hdescribed).2
  exact (callable_of_analyze hwf hstart hknown hcycle).steps_ok hwf hclosed' hm tape

/-- The machines `left` and `right` call each other, and `empty` has no states. -/
def brokenSample : Project × Identity :=
  [Edit.addMachine "left",
    .editMachine "left" (.addState "start"),
    .editMachine "left" (.editState "start" (.setSubmachine (some "right"))),
    .addMachine "right",
    .editMachine "right" (.addState "start"),
    .editMachine "right" (.editState "start" (.setSubmachine (some "left"))),
    .addMachine "empty"].foldl (fun built edit => edit.apply built) (Project.new 0, 1)

theorem built_brokenSample : brokenSample.1.Built brokenSample.2 :=
  (Built.new 0).foldl_edit _

/-- The sample runs without an error, and the broken one fails in both ways. -/
theorem errors_of_samples :
    (∀ tape, ∃ s, Simulation.start sample.1 "main" tape = .ok s ∧
      ∀ n, ∃ t, Simulation.Steps n s t) ∧
    (∀ tape, Simulation.start brokenSample.1 "empty" tape = .error (.startStateNotFound "empty")) ∧
    ∀ tape, ∃ entered ∈ ["left", "right"], Simulation.start brokenSample.1 "right" tape =
      .error (.infiniteSubmachineLoop entered 4) := by
  have hnone : sample.1.analyze = [] := by
    have hmissing : sample.1.missingStartStates = [] := rfl
    have hunknown : sample.1.unknownSubmachines = [] := rfl
    have hunreachable : sample.1.unreachableStates = [] := rfl
    have hcycles : sample.1.submachineCycles = [] := rfl
    rw [analyze, hmissing, hunknown, hunreachable, hcycles]
    exact List.mergeSort_nil
  have hmissing : .missingStartState "empty" ∈ brokenSample.1.analyze :=
    mem_analyze.mpr (.inl (by decide))
  have hcycle : .submachineCycle ["left", "right"] ∈ brokenSample.1.analyze :=
    mem_analyze.mpr (.inr (.inr (.inr (by decide))))
  refine ⟨fun tape => ?_, (analyze_predicts_errors built_brokenSample).2.1 "empty" hmissing, ?_⟩
  · have hmain : ∃ m ∈ sample.1.machines.live, m.name = "main" := by decide
    obtain ⟨m, hm, hname⟩ := hmain
    rw [← hname]
    refine (analyze_predicts_errors built_sample).1 (.inl closed_sample) ?_ ?_ ?_ m hm tape <;>
      simp [hnone]
  · exact (analyze_predicts_errors built_brokenSample).2.2 _ hcycle "right" (by decide)

end Project

end HierarchicalTuring
