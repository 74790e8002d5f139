import HierarchicalTuring.Proofs.Project.Lookup
import HierarchicalTuring.Proofs.Simulation.Lockstep

/-! # Renamed states and machines

Transitions lead to handles, and only calls and starts go by name. A renaming that leaves the name of
the start state and the names of called machines alone is seen in names only.

* A `Renaming` says how the names of machines and states are read: `Renaming.ofState` is one name of
  a state of one machine, and `Renaming.ofMachine` one name of a machine. `Renaming.error` and
  `Renaming.shown` read errors and simulations so.
* `Project.RenamedTo ρ known p q`: the machines of two projects with known names are the same but
  for names (`Machine.RenamedTo`), and all calls are of known machines that keep their names. Such
  projects are simulated in lockstep (`RenamedTo.lockstep`).
* A renamed state and a renamed machine give such projects (`renamedTo_of_renameState`,
  `renamedTo_of_renameMachine`).
-/

set_option autoImplicit false

namespace HierarchicalTuring

/-- How names are read: those of machines, and by machine those of states. -/
structure Renaming where
  machine : String → String
  state : String → String → String

namespace Renaming

/-- One name of a state of a machine is read as another one. -/
def ofState (machine name newName : String) : Renaming where
  machine := id
  state owner state := if owner = machine ∧ state = name then newName else state

/-- One name of a machine is read as another one. -/
def ofMachine (name newName : String) : Renaming where
  machine machine := if machine = name then newName else machine
  state _ state := state

/-- An error with its names read anew. -/
def error (ρ : Renaming) : SimulationError → SimulationError
  | .machineNotFound machine => .machineNotFound (ρ.machine machine)
  | .submachineNotFound submachine state machine =>
    .submachineNotFound (ρ.machine submachine) (ρ.state machine state) (ρ.machine machine)
  | .startStateNotFound machine => .startStateNotFound (ρ.machine machine)
  | .infiniteSubmachineLoop machine depth => .infiniteSubmachineLoop (ρ.machine machine) depth
  | .danglingDestination state machine =>
    .danglingDestination (ρ.state machine state) (ρ.machine machine)

/-- A state of a machine, its name read anew. -/
def named (ρ : Renaming) (machine : String) (state : State) : State :=
  { state with name := ρ.state machine state.name }

/-- What a frame shows, its names read anew. -/
def frame (ρ : Renaming) (frame : Frame) : String × Handle × State :=
  (ρ.machine frame.machine.name, frame.handle, ρ.named frame.machine.name frame.state)

/-- What a simulation shows, its names read anew. -/
def shown (ρ : Renaming) (s : Simulation) : List (String × Handle × State) × Head × Nat × Status :=
  (s.frames.map ρ.frame, s.head, s.stepCount, s.status)

/-- Two simulations fail to start alike, or they start and show the same after any number of steps,
names read anew. -/
def RunsAlike (ρ : Renaming) (x y : Except SimulationError Simulation) : Prop :=
  Agree (fun e e' => ρ.error e = e')
    (fun s t => ∀ n, (t.runFor n).1 = (s.runFor n).1.mapError ρ.error ∧
      (t.runFor n).2.shown = ρ.shown (s.runFor n).2) x y

@[simp] theorem accepting_named (ρ : Renaming) (machine : String) (state : State) :
    (ρ.named machine state).accepting = state.accepting := rfl

@[simp] theorem submachine_named (ρ : Renaming) (machine : String) (state : State) :
    (ρ.named machine state).submachine = state.submachine := rfl

@[simp] theorem transitionFor?_named (ρ : Renaming) (machine : String) (state : State) (c : Char) :
    (ρ.named machine state).transitionFor? c = state.transitionFor? c := rfl

theorem named_ofState (machine name newName : String) (state : State) :
    (ofState machine name newName).named machine state = Machine.renamed name newName state := by
  unfold named ofState Machine.renamed
  by_cases h : state.name = name <;> simp [h]

end Renaming

/-- Every handle stands for the same state in two machines, names read anew. -/
structure Machine.RenamedTo (ρ : Renaming) (m m' : Machine) : Prop where
  name : ρ.machine m.name = m'.name
  stateAt? : ∀ h, m'.stateAt? h = (m.stateAt? h).map (ρ.named m.name)

/-- The machines of two projects with known names are the same, names read anew. Calls are of
machines with known names, which are read as they are. -/
structure Project.RenamedTo (ρ : Renaming) (known : String → Prop) (p q : Project) : Prop where
  left : p.WellFormed
  right : q.WellFormed
  machineCount : p.machineCount = q.machineCount
  start_iff : ∀ machine name, ρ.state machine name = startStateName ↔ name = startStateName
  machine? : ∀ name, known name →
    Option.Rel (Machine.RenamedTo ρ) (p.machine? name) (q.machine? (ρ.machine name))
  called : ∀ m ∈ p.machines.live, ∀ state ∈ m.states.live, ∀ name, state.submachine = some name →
    known name ∧ ρ.machine name = name

/-- Valid frames in the same state of the same machine, names read anew. -/
structure Frame.RenamedTo (ρ : Renaming) (p q : Project) (f g : Frame) : Prop where
  left : f.Valid p
  right : g.Valid q
  machine : f.machine.RenamedTo ρ g.machine
  handle : f.handle = g.handle
  state : ρ.named f.machine.name f.state = g.state

theorem Frame.RenamedTo.shown_eq {ρ : Renaming} {p q : Project} {f g : Frame}
    (h : f.RenamedTo ρ p q g) : g.shown = ρ.frame f := by
  rw [shown, ← h.machine.name, ← h.handle, ← h.state]
  rfl

namespace Project.RenamedTo

variable {ρ : Renaming} {known : String → Prop} {p q : Project} {f g : Frame}

/-! ## Simulations in lockstep -/

theorem start?_eq (h : p.RenamedTo ρ known q) {m m' : Machine} (hm : m.WellFormed)
    (hm' : m'.WellFormed) (hmm' : m.RenamedTo ρ m') :
    m'.start? = m.start?.map fun found => (found.1, ρ.named m.name found.2) := by
  refine Option.ext fun ⟨handle, state⟩ => ?_
  simp only [hm'.start?_eq_some_iff, hmm'.stateAt?, Option.map_eq_some_iff, Prod.exists,
    hm.start?_eq_some_iff, Prod.mk.injEq]
  constructor
  · rintro ⟨⟨old, hold, rfl⟩, hname⟩
    exact ⟨handle, old, ⟨hold, (h.start_iff m.name old.name).mp hname⟩, rfl, rfl⟩
  · rintro ⟨_, old, ⟨hold, hname⟩, rfl, rfl⟩
    exact ⟨⟨old, hold, rfl⟩, (h.start_iff m.name old.name).mpr hname⟩

theorem entered_agree (h : p.RenamedTo ρ known q) {name : String} (hknown : known name) :
    Option.Rel (fun m m' => Agree (fun e e' => ρ.error e = e') (Frame.RenamedTo ρ p q)
      (Frame.start m) (Frame.start m')) (p.machine? name) (q.machine? (ρ.machine name)) := by
  have hmachines := h.machine? name hknown
  generalize hm : p.machine? name = left, hm' : q.machine? (ρ.machine name) = right at hmachines
  cases hmachines with
  | none => exact .none
  | @some m m' hmm' =>
    refine .some ?_
    have hstarts := h.start?_eq (h.left.of_machine? hm) (h.right.of_machine? hm') hmm'
    cases hfound : m.start? with
    | none =>
      rw [hfound] at hstarts
      rw [Frame.start_eq_error_iff.mpr ⟨hfound, rfl⟩, Frame.start_eq_error_iff.mpr ⟨hstarts, rfl⟩]
      exact .error (congrArg SimulationError.startStateNotFound hmm'.name)
    | some found =>
      rw [hfound] at hstarts
      have hstart := Frame.start_of_found hfound
      have hstart' := Frame.start_of_found hstarts
      rw [hstart, hstart']
      exact .ok ⟨(Frame.valid_of_start h.left hm hstart).1,
        (Frame.valid_of_start h.right hm' hstart').1, hmm', rfl, rfl⟩

theorem callee_agree (h : p.RenamedTo ρ known q) (hfg : f.RenamedTo ρ p q g) :
    Agree (fun e e' => ρ.error e = e') (Option.Rel fun x y => x.2.RenamedTo ρ p q y.2 ∧ ∀ depth,
      ρ.error (.infiniteSubmachineLoop x.1 depth) = .infiniteSubmachineLoop y.1 depth)
      (f.callee? p) (g.callee? q) := by
  have hlive := (h.left.machine?_eq_some_iff.mp hfg.left.machine?_eq).1
  refine CallStack.callee_agree (by rw [← hfg.state, Renaming.submachine_named]) fun name hname => ?_
  obtain ⟨hknown, hkept⟩ := h.called _ hlive _ hfg.left.mem_live name hname
  refine ⟨?_, ?_, fun depth => ?_⟩
  · have hentered := h.entered_agree hknown
    rwa [hkept] at hentered
  · rw [← hfg.state, ← hfg.machine.name]
    exact congrArg (SimulationError.submachineNotFound · _ _) hkept
  · exact congrArg (SimulationError.infiniteSubmachineLoop · depth) hkept

theorem lockstep (h : p.RenamedTo ρ known q) :
    Lockstep p q (Frame.RenamedTo ρ p q) (fun e e' => ρ.error e = e') where
  accepting := fun hfg => by rw [← hfg.state, Renaming.accepting_named]
  transition := by
    intro f g hfg c
    -- A transition leads to one handle, whatever its state and its machine are called.
    have hsame : f.state.transitionFor? c = g.state.transitionFor? c := by
      rw [← hfg.state, Renaming.transitionFor?_named]
    rw [← hsame]
    cases ht : f.state.transitionFor? c with
    | none => exact .inl ⟨rfl, rfl⟩
    | some t =>
      refine .inr ⟨t, t, rfl, rfl, rfl, rfl, ?_⟩
      have hdestinations := hfg.machine.stateAt? t.destination
      cases hdestination : f.machine.stateAt? t.destination with
      | none =>
        rw [hdestination] at hdestinations
        refine .inl ⟨rfl, hdestinations, ?_⟩
        rw [← hfg.state, ← hfg.machine.name]
        rfl
      | some state =>
        rw [hdestination] at hdestinations
        exact .inr ⟨state, _, rfl, hdestinations, hfg.left.moved hdestination,
          hfg.right.moved hdestinations, hfg.machine, rfl, rfl⟩
  enter := fun hmatches => by
    have hagree := CallStack.enter_agree h.machineCount h.callee_agree hmatches p.machineCount
    rwa [← h.machineCount]

theorem runsAlike (h : p.RenamedTo ρ known q) {name : String} (hknown : known name) (tape : Tape) :
    ρ.RunsAlike (Simulation.start p name tape) (Simulation.start q (ρ.machine name) tape) := by
  refine (h.lockstep.start_agree (h.entered_agree hknown) rfl tape).imp fun s t hmatches n => ?_
  obtain ⟨hresult, hend⟩ := h.lockstep.runFor hmatches n
  refine ⟨?_, hend.shown_eq ρ.frame fun _ _ hrenamed => hrenamed.shown_eq⟩
  generalize (s.runFor n).1 = x, (t.runFor n).1 = y at hresult
  cases hresult with
  | error he => exact congrArg Except.error he.symm
  | ok hstatus => exact congrArg Except.ok hstatus.symm

end Project.RenamedTo

/-! ## A renamed state and a renamed machine -/

/-- A machine whose names are read as they are. -/
theorem Machine.RenamedTo.of_kept {ρ : Renaming} {m : Machine} (hmachine : ρ.machine m.name = m.name)
    (hstate : ∀ name, ρ.state m.name name = name) : m.RenamedTo ρ m where
  name := hmachine
  stateAt? := by
    intro h
    have hnamed : ρ.named m.name = id := by
      funext state
      rw [Renaming.named, hstate]
      rfl
    rw [hnamed, Option.map_id_apply]

theorem Machine.WellFormed.renamedTo_of_renameState {m m' : Machine} (hm : m.WellFormed)
    {name newName : String} (hrename : m.renameState name newName = .ok m') :
    m.RenamedTo (.ofState m.name name newName) m' where
  name := by
    obtain ⟨_, _, -, -, rfl⟩ := renameState_eq_ok_iff.mp hrename
    rfl
  stateAt? := by
    intro h
    rw [hm.stateAt?_of_renameState hrename]
    exact congrFun (congrArg Option.map (funext fun state =>
      (Renaming.named_ofState m.name name newName state).symm)) _

namespace Project.WellFormed

variable {p q : Project} {name newName : String}

theorem renamedTo_of_renameState (hp : p.WellFormed) (hname : name ≠ startStateName)
    (hnewName : newName ≠ startStateName) {m m' : Machine} (hm : p.machine? m.name = some m)
    (hrename : m.renameState name newName = .ok m')
    (hq : p.modifyMachine? m.name (Machine.Edit.renameState name newName).apply = some q) :
    p.RenamedTo (.ofState m.name name newName) (fun _ => True) q where
  left := hp
  right := hp.modifyMachine (Machine.Edit.name_apply _) (fun _ => Machine.Edit.wellFormed_apply _) hq
  machineCount := (hp.machineCount_of_modifyMachine hq).symm
  start_iff := by
    intro owner state
    show (if owner = m.name ∧ state = name then newName else state) = startStateName ↔ _
    split
    · next hboth => exact ⟨fun h => absurd h hnewName, fun h => absurd (hboth.2 ▸ h) hname⟩
    · exact Iff.rfl
  machine? := by
    intro other _
    show Option.Rel _ (p.machine? other) (q.machine? other)
    rw [hp.machine?_of_modifyMachine hq]
    by_cases hother : other = m.name
    · have happly : (Machine.Edit.renameState name newName).apply m = m' := by
        simp only [Machine.Edit.apply, hrename]
      rw [if_pos hother, hother, hm, Option.map_some, happly]
      exact .some ((hp.of_machine? hm).renamedTo_of_renameState hrename)
    · rw [if_neg hother]
      cases hfound : p.machine? other with
      | none => exact .none
      | some n =>
        have hne : n.name ≠ m.name := (hp.machine?_eq_some_iff.mp hfound).2 ▸ hother
        exact .some (.of_kept rfl fun state => if_neg fun h => hne h.1)
  called := fun _ _ _ _ _ _ => ⟨trivial, rfl⟩

/-- A renamed machine that nothing calls, neither by its old nor by its new name. -/
theorem renamedTo_of_renameMachine (hp : p.WellFormed)
    (hrename : p.renameMachine name newName = .ok q)
    (hcalls : ∀ m ∈ p.machines.live, ∀ state ∈ m.states.live,
      state.submachine ≠ some name ∧ state.submachine ≠ some newName) :
    p.RenamedTo (.ofMachine name newName) (fun other => other ≠ newName) q where
  left := hp
  right := hp.renameMachine hrename
  machineCount := (hp.machineCount_of_renameMachine hrename).symm
  start_iff := fun _ _ => Iff.rfl
  machine? := by
    intro other hother
    obtain ⟨-, m, hm, hfound⟩ := hp.machine?_of_renameMachine hrename
    have hmname := (hp.machine?_eq_some_iff.mp hm).2
    show Option.Rel _ (p.machine? other) (q.machine? (if other = name then newName else other))
    rw [hfound]
    by_cases heq : other = name
    · rw [if_pos heq, if_pos rfl, heq, hm]
      exact .some ⟨if_pos hmname, fun h => (Option.map_id_apply ..).symm⟩
    · rw [if_neg heq, if_neg hother, if_neg heq]
      cases hn : p.machine? other with
      | none => exact .none
      | some n =>
        have hne : n.name ≠ name := (hp.machine?_eq_some_iff.mp hn).2 ▸ heq
        exact .some (.of_kept (if_neg hne) fun _ => rfl)
  called := by
    intro m hm state hstate called hcalled
    obtain ⟨hold, hnew⟩ := hcalls m hm state hstate
    rw [hcalled] at hold hnew
    exact ⟨fun heq => hnew (congrArg some heq), if_neg fun heq => hold (congrArg some heq)⟩

end Project.WellFormed

/-- Renaming a state changes no simulation but in the name that is read, if neither name is that of
the start state. Renaming a machine changes no simulation but in the name that is read and in the
name to start it by, if no state calls a machine by either name. -/
theorem Project.Built.renaming_changes_names_only {next : Identity} {p : Project}
    (hp : p.Built next) :
    (∀ machine name newName m m' q, name ≠ startStateName → newName ≠ startStateName →
      p.machine? machine = some m → m.renameState name newName = .ok m' →
      p.modifyMachine? machine (Machine.Edit.renameState name newName).apply = some q →
      q.machine? machine = some m' ∧ ∀ start tape,
        (Renaming.ofState machine name newName).RunsAlike
          (Simulation.start p start tape) (Simulation.start q start tape)) ∧
    ∀ name newName q, p.renameMachine name newName = .ok q →
      (∀ m ∈ p.machines.live, ∀ state ∈ m.states.live,
        state.submachine ≠ some name ∧ state.submachine ≠ some newName) →
      ∀ start tape, start ≠ newName →
        (Renaming.ofMachine name newName).RunsAlike (Simulation.start p start tape)
          (Simulation.start q (if start = name then newName else start) tape) := by
  have hwf := hp.wellFormed
  constructor
  · intro machine name newName m m' q hname hnewName hm hrename hq
    obtain rfl := (hwf.machine?_eq_some_iff.mp hm).2
    have hrenamed := hwf.renamedTo_of_renameState hname hnewName hm hrename hq
    refine ⟨?_, fun start tape => hrenamed.runsAlike trivial tape⟩
    rw [hwf.machine?_of_modifyMachine hq, if_pos rfl, hm, Option.map_some]
    simp only [Machine.Edit.apply, hrename]
  · intro name newName q hrename hcalls start tape hstart
    exact (hwf.renamedTo_of_renameMachine hrename hcalls).runsAlike hstart tape

/-- In the sample project a state of `pair` and the machine `main` are renamed, each on its own. -/
theorem Project.sample_renamed : ∃ m m' q q' s t u,
    sample.1.machine? "pair" = some m ∧ m.renameState "second" "middle" = .ok m' ∧
    sample.1.modifyMachine? "pair" (Machine.Edit.renameState "second" "middle").apply = some q ∧
    sample.1.renameMachine "main" "first" = .ok q' ∧
    Simulation.start sample.1 "main" (.ofText "111+" '_') = .ok s ∧
    Simulation.start q "main" (.ofText "111+" '_') = .ok t ∧
    Simulation.start q' "first" (.ofText "111+" '_') = .ok u ∧
    ((t.runFor 2).2.shown.1.map fun frame => (frame.1, frame.2.2.name)) =
      [("main", "call"), ("pair", "middle")] ∧
    ((u.runFor 2).2.shown.1.map fun frame => (frame.1, frame.2.2.name)) =
      [("first", "call"), ("pair", "second")] ∧
    (t.runFor 9).1 = .ok .accepted ∧ (u.runFor 9).1 = .ok .accepted := by
  obtain ⟨hstates, hmachines⟩ := built_sample.renaming_changes_names_only
  let m := (sample.1.machine? "pair").get rfl
  let m' := ((m.renameState "second" "middle").toOption).get rfl
  let q' := ((sample.1.renameMachine "main" "first").toOption).get rfl
  let s := ((Simulation.start sample.1 "main" (.ofText "111+" '_')).toOption).get rfl
  have hm : sample.1.machine? "pair" = some m := rfl
  have hm' : m.renameState "second" "middle" = .ok m' := rfl
  have hq' : sample.1.renameMachine "main" "first" = .ok q' := rfl
  have hs : Simulation.start sample.1 "main" (.ofText "111+" '_') = .ok s := rfl
  have hcalls : ∀ m ∈ sample.1.machines.live, ∀ state ∈ m.states.live,
      state.submachine ≠ some "main" ∧ state.submachine ≠ some "first" := by decide +kernel
  have haccepted : (s.runFor 9).1 = .ok .accepted := by decide +kernel
  obtain ⟨q, hq⟩ := built_sample.wellFormed.exists_modifyMachine? hm
    (Machine.Edit.renameState "second" "middle").apply
  have hstate := (hstates "pair" "second" "middle" m m' q (by decide) (by decide) hm hm' hq).2
    "main" (.ofText "111+" '_')
  have hmachine := hmachines "main" "first" q' hq' hcalls "main" (.ofText "111+" '_') (by decide)
  rw [if_pos rfl] at hmachine
  rw [hs] at hstate hmachine
  generalize ht : Simulation.start q "main" (.ofText "111+" '_') = left at hstate
  generalize hu : Simulation.start q' "first" (.ofText "111+" '_') = right at hmachine
  cases hstate with
  | @ok _ t hleft =>
    cases hmachine with
    | @ok _ u hright =>
      refine ⟨m, m', q, q', s, t, u, hm, hm', hq, hq', hs, ht, hu, ?_, ?_, ?_, ?_⟩
      · rw [(hleft 2).2]
        decide +kernel
      · rw [(hright 2).2]
        decide +kernel
      · rw [(hleft 9).1, haccepted]
        rfl
      · rw [(hright 9).1, haccepted]
        rfl

end HierarchicalTuring
