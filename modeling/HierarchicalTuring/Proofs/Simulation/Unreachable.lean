import HierarchicalTuring.Proofs.Analysis.Search
import HierarchicalTuring.Proofs.Project.Lookup
import HierarchicalTuring.Proofs.Simulation.Lockstep
import HierarchicalTuring.Proofs.State.Scan

/-! # Unreachable states

A run never leaves what the start states of its machines can reach, so a state that the analysis
calls unreachable can be removed.

* `Machine.KeepsReachable m m'`: a machine has kept its start state and every reachable state, the
  transitions included. Removing an unreachable state keeps them, as no reachable state leads there
  (`keepsReachable_of_removeState`).
* `Project.KeepsReachable.lockstep`: with every machine so kept, a project is simulated in lockstep
  with the one before, in frames with reachable handles. As a project keeps itself, the frames of its
  own simulations are such (`Project.WellFormed.frames_reachable`).
* `Project.Built.unreachable_state_changes_no_run` puts this together with the analysis.
-/

set_option autoImplicit false

namespace HierarchicalTuring

/-- The start state and the reachable states of a machine are the same in another one of its
name. -/
structure Machine.KeepsReachable (m m' : Machine) : Prop where
  name : m.name = m'.name
  start? : m.start? = m'.start?
  stateAt? : ∀ {h : Handle}, m.Reachable h → m.stateAt? h = m'.stateAt? h

namespace Machine

variable {m m' : Machine} {name : String} {removed : State}

theorem KeepsReachable.refl (m : Machine) : m.KeepsReachable m :=
  ⟨rfl, rfl, fun _ => rfl⟩

/-! ## Removing a state -/

/-- A reachable state leads to reachable states only, so it loses no transition. -/
theorem WellFormed.stateAt?_of_removeState_of_reachable (hm : m.WellFormed)
    (hremove : m.removeState? name = some (removed, m'))
    (hunreachable : ∀ h state, m.stateAt? h = some state → state.name = name → ¬ m.Reachable h)
    {handle : Handle} (hhandle : m.Reachable handle) : m.stateAt? handle = m'.stateAt? handle := by
  obtain ⟨h, hstate, hname, hleft⟩ := hm.stateAt?_of_removeState hremove
  have hnot : ¬ m.Reachable h := hunreachable h removed hstate hname
  have hne : handle ≠ h := fun heq => hnot (heq ▸ hhandle)
  rw [hleft, if_neg hne]
  cases hfound : m.stateAt? handle with
  | none => rfl
  | some state =>
    have hself : state.removeTransitionsTo h = state := by
      refine State.removeTransitionsTo_eq_self fun stored hstored hleads => hnot ?_
      exact hleads ▸ .follow hhandle hfound hstored
    rw [Option.map_some, hself]

theorem WellFormed.keepsReachable_of_removeState (hm : m.WellFormed)
    (hremove : m.removeState? name = some (removed, m'))
    (hunreachable : ∀ h state, m.stateAt? h = some state → state.name = name → ¬ m.Reachable h)
    (hstart : ∃ found, m.start? = some found) : m.KeepsReachable m' := by
  have hkept : ∀ {handle : Handle}, m.Reachable handle → m.stateAt? handle = m'.stateAt? handle :=
    hm.stateAt?_of_removeState_of_reachable hremove hunreachable
  refine ⟨(fields_of_removeState? hremove).symm, ?_, hkept⟩
  obtain ⟨⟨handle, state⟩, hfound⟩ := hstart
  obtain ⟨hstate, hname⟩ := hm.start?_eq_some_iff.mp hfound
  rw [hkept (.start hfound)] at hstate
  rw [hfound, eq_comm, (hm.removeState hremove).start?_eq_some_iff]
  exact ⟨hstate, hname⟩

end Machine

/-- Every machine of a project has kept what is reachable in it. -/
structure Project.KeepsReachable (p q : Project) : Prop where
  left : p.WellFormed
  right : q.WellFormed
  machineCount : p.machineCount = q.machineCount
  machine? : ∀ name, Option.Rel Machine.KeepsReachable (p.machine? name) (q.machine? name)

/-- Valid frames in machines of the same name, both in one reachable state. -/
structure Frame.SameReachable (p q : Project) (f g : Frame) : Prop where
  left : f.Valid p
  right : g.Valid q
  machine : f.machine.name = g.machine.name
  handle : f.handle = g.handle
  state : f.state = g.state
  reachable : f.machine.Reachable f.handle

theorem Frame.SameReachable.shown_eq {p q : Project} {f g : Frame} (h : f.SameReachable p q g) :
    g.shown = f.shown := by
  rw [shown, shown, h.machine, h.handle, h.state]

namespace Project.KeepsReachable

variable {p q : Project} {f g : Frame}

theorem refl (hp : p.WellFormed) : p.KeepsReachable p where
  left := hp
  right := hp
  machineCount := rfl
  machine? := by
    intro name
    cases p.machine? name with
    | none => exact .none
    | some m => exact .some (.refl m)

theorem of_modifyMachine (hp : p.WellFormed) (hq : q.WellFormed) {name : String} {m : Machine}
    {change : Machine → Machine} (hm : p.machine? name = some m)
    (hmodify : p.modifyMachine? name change = some q) (hkept : m.KeepsReachable (change m)) :
    p.KeepsReachable q where
  left := hp
  right := hq
  machineCount := (hp.machineCount_of_modifyMachine hmodify).symm
  machine? := by
    intro other
    rw [hp.machine?_of_modifyMachine hmodify]
    by_cases hother : other = name
    · rw [if_pos hother, hother, hm]
      exact .some hkept
    · rw [if_neg hother]
      exact (refl hp).machine? other

/-! ## Related frames -/

theorem machine_kept (h : p.KeepsReachable q) (hfg : f.SameReachable p q g) :
    f.machine.KeepsReachable g.machine := by
  have hmachines := h.machine? f.machine.name
  rw [hfg.left.machine?_eq, hfg.machine, hfg.right.machine?_eq] at hmachines
  cases hmachines with
  | some hkept => exact hkept

theorem entered_agree (h : p.KeepsReachable q) (name : String) :
    Option.Rel (fun m m' => Agree Eq (Frame.SameReachable p q) (Frame.start m) (Frame.start m'))
      (p.machine? name) (q.machine? name) := by
  have hmachines := h.machine? name
  generalize hm : p.machine? name = left, hm' : q.machine? name = right at hmachines
  cases hmachines with
  | none => exact .none
  | @some m m' hkept =>
    refine .some ?_
    cases hfound : m.start? with
    | none =>
      rw [Frame.start_eq_error_iff.mpr ⟨hfound, rfl⟩,
        Frame.start_eq_error_iff.mpr ⟨hkept.start? ▸ hfound, rfl⟩, hkept.name]
      exact .error rfl
    | some found =>
      have hstart := Frame.start_of_found hfound
      have hstart' := Frame.start_of_found (hkept.start? ▸ hfound)
      rw [hstart, hstart']
      exact .ok ⟨(Frame.valid_of_start h.left hm hstart).1,
        (Frame.valid_of_start h.right hm' hstart').1, hkept.name, rfl, rfl, .start hfound⟩

theorem transition_cases (h : p.KeepsReachable q) (hfg : f.SameReachable p q g) (c : Char) :
    (f.state.transitionFor? c = none ∧ g.state.transitionFor? c = none) ∨
      ∃ t, f.state.transitionFor? c = some t ∧ g.state.transitionFor? c = some t ∧
        f.machine.Reachable t.destination ∧
        f.machine.stateAt? t.destination = g.machine.stateAt? t.destination := by
  rw [← hfg.state]
  cases ht : f.state.transitionFor? c with
  | none => exact .inl ⟨rfl, rfl⟩
  | some t =>
    obtain ⟨id, hstored⟩ := State.mem_of_transitionFor? ht
    have hreachable : f.machine.Reachable t.destination :=
      .follow hfg.reachable hfg.left.stateAt?_eq hstored
    exact .inr ⟨t, rfl, rfl, hreachable, (h.machine_kept hfg).stateAt? hreachable⟩

theorem lockstep (h : p.KeepsReachable q) : Lockstep p q (Frame.SameReachable p q) Eq where
  accepting := fun hfg => congrArg State.accepting hfg.state
  transition := by
    intro f g hfg c
    obtain hnone | ⟨t, ht, ht', hreachable, hsame⟩ := h.transition_cases hfg c
    · exact .inl hnone
    · refine .inr ⟨t, t, ht, ht', rfl, rfl, ?_⟩
      rw [← hsame]
      cases hdestination : f.machine.stateAt? t.destination with
      | none => exact .inl ⟨rfl, rfl, by rw [hfg.state, hfg.machine]⟩
      | some state =>
        exact .inr ⟨state, state, rfl, rfl, hfg.left.moved hdestination,
          hfg.right.moved (hsame ▸ hdestination), hfg.machine, rfl, rfl, hreachable⟩
  enter := fun hmatches => by
    have hcallee : ∀ {f g : Frame}, f.SameReachable p q g → _ := fun hfg =>
      CallStack.callee_agree (p := p) (q := q) (E := Eq) (congrArg State.submachine hfg.state)
        fun name _ => ⟨h.entered_agree name, by rw [hfg.state, hfg.machine], fun _ => rfl⟩
    have hagree := CallStack.enter_agree h.machineCount hcallee hmatches p.machineCount
    rwa [← h.machineCount]

end Project.KeepsReachable

/-- A simulation stays in states that the start states of their machines reach, also after steps that
fail. -/
theorem Project.WellFormed.frames_reachable {p : Project} (hp : p.WellFormed) {name : String}
    {tape : Tape} {s : Simulation} (hs : Simulation.start p name tape = .ok s) (n : Nat)
    {frame : Frame} (hframe : frame ∈ ((fun t => t.step.2)^[n] s).frames) :
    frame.Valid p ∧ frame.machine.Reachable frame.handle := by
  have hself := Project.KeepsReachable.refl hp
  have hstarted := hself.lockstep.start_agree (hself.entered_agree name) rfl tape
  rw [hs] at hstarted
  cases hstarted with
  | ok hmatches =>
    obtain ⟨_, -, hsame⟩ := (hself.lockstep.steps hmatches n).exists_related hframe
    exact ⟨hsame.left, hsame.reachable⟩

/-- No frame of a simulation is ever in a state that the analysis calls unreachable, also when steps
fail. Removing the state changes no simulation: it starts with the same error or with the same
frames, head and status, and any number of steps gives the same result and leaves the same. -/
theorem Project.Built.unreachable_state_changes_no_run {next : Identity} {p : Project}
    (hp : p.Built next) {machine state : String} {names : List String}
    (hfinding : .unreachableStates machine names ∈ p.analyze) (hstate : state ∈ names) :
    (∀ name tape s, Simulation.start p name tape = .ok s →
      ∀ n, ∀ frame ∈ ((fun t => t.step.2)^[n] s).frames,
        frame.machine.name = machine → frame.state.name ≠ state) ∧
    ∃ m removed left q, p.machine? machine = some m ∧ m.removeState? state = some (removed, left) ∧
      p.modifyMachine? machine (Machine.Edit.removeState state).apply = some q ∧
      q.machine? machine = some left ∧ ∀ name tape,
        Agree Eq (fun s t => ∀ n, (s.runFor n).1 = (t.runFor n).1 ∧
            (s.runFor n).2.shown = (t.runFor n).2.shown)
          (Simulation.start p name tape) (Simulation.start q name tape) := by
  have hwf := hp.wellFormed
  obtain ⟨m, hm, hstart, h, removed, hremoved, rfl, hnot⟩ :=
    hwf.unreachable_of_mem_analyze hfinding hstate
  have hmwf := hwf.of_machine? hm
  -- Whatever has the name is the unreachable state, as names are unique in a machine.
  have hunique : ∀ {h' : Handle} {s : State}, m.stateAt? h' = some s → s.name = removed.name →
      ¬ m.Reachable h' := fun hs hname hreachable =>
    hnot (hmwf.indexed.handle_eq_of_name_eq hs hremoved hname ▸ hreachable)
  obtain ⟨left, hleft⟩ := hmwf.exists_removeState? hremoved
  obtain ⟨q, hq⟩ := hwf.exists_modifyMachine? hm (Machine.Edit.removeState removed.name).apply
  have happly : (Machine.Edit.removeState removed.name).apply m = left := by
    simp only [Machine.Edit.apply, hleft]
  have hqwf : q.WellFormed :=
    hwf.modifyMachine (Machine.Edit.name_apply _) (fun _ => Machine.Edit.wellFormed_apply _) hq
  have hkept : p.KeepsReachable q := by
    refine .of_modifyMachine hwf hqwf hm hq ?_
    rw [happly]
    exact hmwf.keepsReachable_of_removeState hleft (fun _ _ => hunique) hstart
  refine ⟨fun name tape s hs n frame hframe hmachine hname => ?_,
    m, removed, left, q, hm, hleft, hq, ?_, fun name tape =>
      (hkept.lockstep.start_agree (hkept.entered_agree name) rfl tape).imp ?_⟩
  · obtain ⟨hvalid, hreachable⟩ := hwf.frames_reachable hs n hframe
    have hsome := hvalid.machine?_eq
    rw [hmachine, hm] at hsome
    cases hsome
    exact hunique hvalid.stateAt?_eq hname hreachable
  · rw [hwf.machine?_of_modifyMachine hq, if_pos rfl, hm, Option.map_some, happly]
  · intro s t hmatches n
    obtain ⟨hresult, hend⟩ := hkept.lockstep.runFor hmatches n
    exact ⟨hresult.eq, (hend.shown_eq Frame.shown fun _ _ hsame => hsame.shown_eq).symm⟩

/-- The machine `main` reads a one and calls `halt`, which has a state that leads to others and to
itself. -/
def Project.straying : Project × Identity :=
  [Edit.addMachine "main",
    .editMachine "main" (.addState "start"),
    .editMachine "main" (.addState "call"),
    .editMachine "main" (.editState "call" (.setAccepting true)),
    .editMachine "main" (.editState "call" (.setSubmachine (some "halt"))),
    .editMachine "main" (.addTransition "start" "call" "1" none .right),
    .addMachine "halt",
    .editMachine "halt" (.addState "start"),
    .editMachine "halt" (.editState "start" (.setAccepting true)),
    .editMachine "halt" (.addState "stray"),
    .editMachine "halt" (.addTransition "stray" "start" "1" none .right),
    .editMachine "halt" (.addTransition "stray" "stray" "+" none .left)].foldl
    (fun built edit => edit.apply built) (Project.new 0, 1)

theorem Project.built_straying : straying.1.Built straying.2 :=
  (Built.new 0).foldl_edit _

/-- Without the state the project accepts what it accepted. -/
theorem Project.straying_without_stray :
    straying.1.Built straying.2 ∧ .unreachableStates "halt" ["stray"] ∈ straying.1.analyze ∧
    ∃ q s t,
      straying.1.modifyMachine? "halt" (Machine.Edit.removeState "stray").apply = some q ∧
      Simulation.start straying.1 "main" (.ofText "1" '_') = .ok s ∧
      Simulation.start q "main" (.ofText "1" '_') = .ok t ∧
      (s.runFor 5).1 = .ok .accepted ∧ (t.runFor 5).1 = .ok .accepted ∧
      (s.runFor 5).2.shown = (t.runFor 5).2.shown := by
  have hfinding : .unreachableStates "halt" ["stray"] ∈ straying.1.analyze := by
    have hm : straying.1.machine? "halt" = some ((straying.1.machine? "halt").get rfl) := rfl
    exact unreachableStates_mem_analyze.mpr
      ⟨_, (built_straying.wellFormed.machine?_eq_some_iff.mp hm).1, ["stray"], rfl, by simp, rfl,
        by simp⟩
  obtain ⟨-, -, -, -, q, -, -, hq, -, hruns⟩ :=
    built_straying.unreachable_state_changes_no_run hfinding List.mem_cons_self
  let s := ((Simulation.start straying.1 "main" (.ofText "1" '_')).toOption).get rfl
  have hs : Simulation.start straying.1 "main" (.ofText "1" '_') = .ok s := rfl
  have haccepted : (s.runFor 5).1 = .ok .accepted := by decide +kernel
  have hagree := hruns "main" (.ofText "1" '_')
  rw [hs] at hagree
  generalize hother : Simulation.start q "main" (.ofText "1" '_') = other at hagree
  cases hagree with
  | @ok _ t hsame =>
    obtain ⟨hresult, hshown⟩ := hsame 5
    exact ⟨built_straying, hfinding, q, s, t, hq, hs, hother, haccepted, hresult ▸ haccepted, hshown⟩

end HierarchicalTuring
