import HierarchicalTuring.Proofs.Project.Lookup
import HierarchicalTuring.Proofs.Simulation.Frames
import HierarchicalTuring.Proofs.State.Scan

/-! # No dangling transitions

A transition may be added with any handle. Where every handle resolves at the moment of its addition,
no later change lets one dangle.

* `Machine.Edit.leads` and `Project.Edit.leads` ask that of one change. Such a change keeps a
  machine and a project closed (`Machine.Edit.closed_apply`, `Project.Edit.closed_apply`): what is
  removed takes along all transitions to it, and everything else keeps its handle.
* `Project.BuiltInside`: a project that such changes lead to.
* `BuiltInside.never_dangling`: every stored transition of it leads to a state of its machine, and no
  simulation of it fails for want of one.
-/

set_option autoImplicit false

namespace HierarchicalTuring

/-! ## Changes that add transitions to states of the machine -/

/-- The handle that a change takes up, if it adds a transition by its handle. -/
def State.Edit.destination? : State.Edit → Option Handle
  | addTransition destination _ _ _ => some destination
  | _ => none

/-- Whether a transition that is added by its handle leads to a state of the machine. -/
def Machine.Edit.leads (m : Machine) : Machine.Edit → Bool
  | editState _ edit => edit.destination?.all fun h => (m.stateAt? h).isSome
  | editStateAt _ edit => edit.destination?.all fun h => (m.stateAt? h).isSome
  | _ => true

/-- Whether a transition that is added by its handle leads to a state of the machine it is added
to. -/
def Project.Edit.leads (p : Project) : Project.Edit → Bool
  | editMachine name edit => (p.machine? name).all fun m => edit.leads m
  | editMachineAt h edit => (p.machineAt? h).all fun m => edit.leads m
  | _ => true

/-- A project can be built, as in `Project.Built`, so that every handle resolves in its machine when
a transition is added with it. -/
inductive Project.BuiltInside : Identity → Project → Prop
  | new (identity : Identity) : BuiltInside (identity + 1) (Project.new identity)
  | described {next next' : Identity} {documents : ProjectDocument} {p : Project} :
      Project.ofDocuments next documents = .ok (p, next') → BuiltInside next' p
  | edited {next : Identity} {p : Project} {edit : Edit} :
      BuiltInside next p → edit.leads p = true →
      BuiltInside (edit.apply (p, next)).2 (edit.apply (p, next)).1
  | later {next next' : Identity} {p : Project} :
      BuiltInside next p → next ≤ next' → BuiltInside next' p

theorem Project.BuiltInside.built {next : Identity} {p : Project} (h : p.BuiltInside next) :
    p.Built next := by
  induction h with
  | new identity => exact .new identity
  | described h => exact .described h
  | edited _ _ ih => exact ih.edited _
  | later _ hle ih => exact ih.later hle

/-- Whether each of some changes, made one after the other, leads inside at its moment. -/
def Project.Edit.allLead : List Edit → Project × Identity → Bool
  | [], _ => true
  | edit :: edits, built => edit.leads built.1 && allLead edits (edit.apply built)

theorem Project.BuiltInside.foldl_edit {next : Identity} {p : Project} (h : p.BuiltInside next)
    {edits : List Edit} (hleads : Edit.allLead edits (p, next) = true) :
    Project.BuiltInside (edits.foldl (fun built edit => edit.apply built) (p, next)).2
      (edits.foldl (fun built edit => edit.apply built) (p, next)).1 := by
  induction edits generalizing next p with
  | nil => exact h
  | cons edit edits ih =>
    obtain ⟨hfirst, hrest⟩ := (Bool.and_eq_true _ _).mp hleads
    exact ih (h.edited hfirst) hrest

/-! ## One machine -/

theorem State.Edit.mem_transitions_apply (edit : State.Edit) {s : State}
    {stored : TransitionId × Transition} (h : stored ∈ (edit.apply s).transitions) :
    stored ∈ s.transitions ∨ edit.destination? = some stored.2.destination := by
  cases edit with
  | addTransition destination input output direction =>
    simp only [apply] at h
    split at h
    · next hadd =>
      refine (State.mem_transitions_of_addTransition hadd h).imp_right fun hnew => ?_
      rw [hnew]
      rfl
    · exact .inl h
  | removeTransition id =>
    have hleft : stored ∈ (s.withoutTransition id).transitions := h
    rw [State.transitions_withoutTransition] at hleft
    exact .inl (List.mem_of_mem_filter hleft)
  | _ => exact .inl h

namespace Machine

variable {m m' : Machine}

theorem closed_editState (hclosed : m.Closed) {edit : State.Edit} {slot : Nat} {state : State}
    (hslot : m.states.slot? slot = some state)
    (hleads : (edit.destination?.all fun h => (m.stateAt? h).isSome) = true) :
    Closed { m with states := m.states.put slot (edit.apply state) } := by
  refine WellFormed.closed_put hclosed hslot fun stored hstored => ?_
  rcases edit.mem_transitions_apply hstored with hold | hnew
  · exact hclosed state (Store.mem_live.mpr ⟨slot, hslot⟩) stored hold
  · rwa [hnew] at hleads

theorem WellFormed.closed_renameState (hm : m.WellFormed) (hclosed : m.Closed)
    {name newName : String} (hrename : m.renameState name newName = .ok m') : m'.Closed := by
  have hrenamed := hm.stateAt?_of_renameState hrename
  intro state hstate stored hstored
  obtain ⟨handle, hhandle⟩ := exists_stateAt?_of_mem_live hstate
  rw [hrenamed] at hhandle
  obtain ⟨old, hold, rfl⟩ := Option.map_eq_some_iff.mp hhandle
  rw [transitions_renamed] at hstored
  rw [hrenamed, Option.isSome_map]
  exact hclosed old (mem_live_of_stateAt? hold) stored hstored

/-- Whatever leads to the removed state is removed with it. -/
theorem WellFormed.closed_removeState (hm : m.WellFormed) (hclosed : m.Closed) {name : String}
    {state : State} (hremove : m.removeState? name = some (state, m')) : m'.Closed := by
  obtain ⟨h, -, -, hleft⟩ := hm.stateAt?_of_removeState hremove
  intro state' hstate' stored hstored
  obtain ⟨handle, hhandle⟩ := exists_stateAt?_of_mem_live hstate'
  rw [hleft] at hhandle
  split at hhandle
  · cases hhandle
  obtain ⟨old, hold, rfl⟩ := Option.map_eq_some_iff.mp hhandle
  have hlive := mem_live_of_stateAt? hold
  rw [(hm.live old hlive).transitions_removeTransitionsTo] at hstored
  obtain ⟨hkept, hne⟩ := List.mem_filter.mp hstored
  rw [hleft, if_neg (of_decide_eq_true hne), Option.isSome_map]
  exact hclosed old hlive stored hkept

theorem WellFormed.closed_addTransition (hm : m.WellFormed) (hclosed : m.Closed)
    {source destination input : String} {output : Option Char} {direction : Direction}
    {id : TransitionId}
    (hadd : m.addTransition source destination input output direction = .ok (id, m')) :
    m'.Closed := by
  unfold Machine.addTransition at hadd
  split at hadd
  · cases hadd
  next h hhandle =>
  split at hadd
  · cases hadd
  next state hstate =>
  obtain ⟨⟨id', changed⟩, hchanged, hm'⟩ := bind_eq_ok_iff.mp hadd
  cases hm'
  have hlive := (hm.state?_eq_some_iff.mp hstate).1
  have hindexed := (hm.live state hlive).addTransition
    (Transition.nodup_input_make h input output direction) hchanged
  obtain ⟨slot, hslot, hmodify, -⟩ :=
    hm.replaceState hstate (State.fields_of_addTransition hchanged).1 hindexed
  rw [hmodify]
  refine WellFormed.closed_put hclosed hslot fun stored hstored => ?_
  rcases State.mem_transitions_of_addTransition hchanged hstored with hold | hnew
  · exact hclosed state hlive stored hold
  · obtain ⟨found, hfound, -⟩ := hm.stateHandle?_eq_some_iff.mp hhandle
    rw [hnew]
    exact Option.isSome_iff_exists.mpr ⟨found, hfound⟩

theorem Edit.closed_apply (edit : Machine.Edit) (hm : m.WellFormed) (hclosed : m.Closed)
    (hleads : edit.leads m = true) : (edit.apply m).Closed := by
  cases edit with
  | addState name =>
    simp only [apply]
    split
    · next hadd => exact (insertState_keeps hm hclosed (State.Indexed.new name) rfl hadd).2.2
    · exact hclosed
  | renameState name newName =>
    simp only [apply]
    split
    · next hrename => exact hm.closed_renameState hclosed hrename
    · exact hclosed
  | removeState name =>
    simp only [apply]
    split
    · next hremove => exact hm.closed_removeState hclosed hremove
    · exact hclosed
  | addTransition source destination input output direction =>
    simp only [apply]
    split
    · next hadd => exact hm.closed_addTransition hclosed hadd
    · exact hclosed
  | editState name edit =>
    simp only [apply, modifyState?]
    cases hmodify : m.states.modify? name edit.apply with
    | none => exact hclosed
    | some states =>
      obtain ⟨handle, found, hfound, -, rfl⟩ := hm.indexed.modify?_eq_some_iff.mp hmodify
      exact closed_editState hclosed (Store.resolve?_eq_some_iff.mp hfound).2 hleads
  | editStateAt h edit =>
    simp only [apply, modifyStateAt?]
    cases hmodify : m.states.modifyAt? h edit.apply with
    | none => exact hclosed
    | some states =>
      obtain ⟨found, hfound, rfl⟩ := Store.modifyAt?_eq_some_iff.mp hmodify
      exact closed_editState hclosed (Store.resolve?_eq_some_iff.mp hfound).2 hleads

end Machine

/-! ## All machines -/

namespace Project

variable {p : Project}

theorem WellFormed.closed_editMachine (hp : p.WellFormed) (hclosed : p.Closed) {h : Handle}
    {m : Machine} (hm : p.machineAt? h = some m) {edit : Machine.Edit}
    (hleads : edit.leads m = true) : Closed ⟨p.machines.put h.slot (edit.apply m)⟩ := by
  have hsound : p.machines.Sound Machine.Closed := ⟨hp.indexed, hclosed⟩
  have hlive : m ∈ p.machines.live := Store.mem_live_of_resolve? hm
  exact (hsound.put (Store.resolve?_eq_some_iff.mp hm).2 (edit.name_apply m)
    (edit.closed_apply (hp.live m hlive) (hclosed m hlive) hleads)).live

theorem Edit.closed_apply (edit : Project.Edit) (next : Identity) (hp : p.WellFormed)
    (hclosed : p.Closed) (hleads : edit.leads p = true) : (edit.apply (p, next)).1.Closed := by
  have hsound : p.machines.Sound Machine.Closed := ⟨hp.indexed, hclosed⟩
  cases edit with
  | addMachine name =>
    simp only [apply]
    split
    · next hadd =>
      exact (insertMachine_keeps hp hclosed (Machine.WellFormed.new next name)
        (Machine.closed_new next name) hadd).2
    · exact hclosed
  | renameMachine name newName =>
    simp only [apply]
    split
    · next hrename =>
      obtain ⟨h, machines, -, hmachines, rfl⟩ := renameMachine_eq_ok_iff.mp hrename
      exact (hsound.rename (fun _ _ hm => hm) hmachines).live
    · exact hclosed
  | removeMachine name =>
    simp only [apply]
    split
    · next hremove =>
      simp only [removeMachine?, bind, Option.bind_eq_some_iff, pure, Option.some.injEq,
        Prod.mk.injEq] at hremove
      obtain ⟨⟨h, found, machines⟩, hmachines, -, rfl⟩ := hremove
      exact (hsound.remove hmachines).live
    · exact hclosed
  | editMachine name edit =>
    simp only [apply]
    cases hmodify : p.modifyMachine? name edit.apply with
    | none => exact hclosed
    | some q =>
      obtain ⟨handle, m, hm, hname, rfl⟩ := hp.modifyMachine?_eq_some_iff.mp hmodify
      have hfound : p.machine? name = some m :=
        hp.machine?_eq_some_iff.mpr ⟨Store.mem_live_of_resolve? hm, hname⟩
      simp only [leads, hfound, Option.all_some] at hleads
      exact hp.closed_editMachine hclosed hm hleads
  | editMachineAt h edit =>
    simp only [apply, modifyMachineAt?]
    cases hmodify : p.machines.modifyAt? h edit.apply with
    | none => exact hclosed
    | some machines =>
      obtain ⟨m, hm, rfl⟩ := Store.modifyAt?_eq_some_iff.mp hmodify
      simp only [leads, machineAt?, hm, Option.all_some] at hleads
      exact hp.closed_editMachine hclosed hm hleads

theorem BuiltInside.closed {next : Identity} (h : p.BuiltInside next) : p.Closed := by
  induction h with
  | new identity => exact fun _ hm => absurd hm List.not_mem_nil
  | described h => exact (ofDocuments_keeps h).2
  | @edited next p edit hbuilt hleads ih =>
    exact edit.closed_apply next hbuilt.built.wellFormed ih hleads
  | later _ _ ih => exact ih

end Project

/-! ## Simulations -/

variable {p : Project}

theorem Frame.callee?_ne_dangling (frame : Frame) (state machine : String) :
    frame.callee? p ≠ .error (.danglingDestination state machine) := by
  intro h
  obtain ⟨name, -, ⟨-, he⟩ | ⟨m, -, hstart⟩⟩ := callee?_eq_error_iff.mp h
  · cases he
  · cases (start_eq_error_iff.mp hstart).2

/-- Following calls looks at no transition. -/
theorem CallStack.enter_ne_dangling (c : CallStack) (remaining : Nat) (state machine : String) :
    (c.enter p remaining).1 ≠ .error (.danglingDestination state machine) := by
  have hcallee := c.current.callee?_ne_dangling (p := p) state machine
  induction remaining generalizing c with
  | zero =>
    unfold enter
    rcases hc : c.current.callee? p with e | _ | ⟨name, callee⟩
    · exact fun he => hcallee (hc.trans (congrArg Except.error (Except.error.inj he)))
    · intro he
      cases he
    · intro he
      cases he
  | succ remaining ih =>
    unfold enter
    rcases hc : c.current.callee? p with e | _ | ⟨name, callee⟩
    · exact fun he => hcallee (hc.trans (congrArg Except.error (Except.error.inj he)))
    · intro he
      cases he
    · exact ih (c.push callee) (callee.callee?_ne_dangling state machine)

namespace Simulation

variable {s : Simulation}

theorem settle_ne_dangling (s t : Simulation) (state machine : String) :
    s.settle ≠ (.error (.danglingDestination state machine), t) := by
  intro h
  obtain ⟨stack, henter, -⟩ := settle_eq_error_iff.mp h
  exact s.stack.enter_ne_dangling s.project.machineCount state machine (congrArg Prod.fst henter)

/-- In a closed project the transition that a step takes leads somewhere. -/
theorem Linked.step_ne_dangling (hp : p.WellFormed) (hclosed : p.Closed) {name : String}
    (hs : s.Linked p name) (state machine : String) :
    s.step.1 ≠ .error (.danglingDestination state machine) := by
  intro h
  obtain ⟨-, transition, htransition, ⟨hnone, -, -⟩ | ⟨destination, -, hsettle⟩⟩ :=
    step_error_cases (Prod.ext h rfl : s.step = (_, s.step.2))
  · have hvalid : s.current.Valid p := hs.stack.valid_current
    have hm := hclosed _ (hp.machine?_eq_some_iff.mp hvalid.machine?_eq).1
    obtain ⟨found, hfound⟩ := hm.destination hvalid.mem_live htransition
    rw [hnone] at hfound
    cases hfound
  · exact settle_ne_dangling _ _ state machine hsettle

theorem start_ne_dangling (name : String) (tape : Tape) (state machine : String) :
    start p name tape ≠ .error (.danglingDestination state machine) := by
  intro h
  unfold start at h
  split at h
  · cases h
  split at h
  · next hstart =>
    cases h
    cases (Frame.start_eq_error_iff.mp hstart).2
  split at h
  · next hsettle =>
    cases h
    exact settle_ne_dangling _ _ state machine hsettle
  · cases h

end Simulation

/-- If every transition is added toward a state of its machine, then whatever else is changed, every
stored transition leads to a state of its machine, and no simulation ever fails for want of a
destination, not even after it has failed for another reason. -/
theorem Project.BuiltInside.never_dangling {next : Identity} (hp : p.BuiltInside next) :
    (∀ m ∈ p.machines.live, ∀ state ∈ m.states.live, ∀ stored ∈ state.transitions,
      ∃ destination ∈ m.states.live, m.stateAt? stored.2.destination = some destination) ∧
    ∀ name tape state machine,
      Simulation.start p name tape ≠ .error (.danglingDestination state machine) ∧
      ∀ s, Simulation.start p name tape = .ok s → ∀ n,
        ((fun t => t.step.2)^[n] s).step.1 ≠ .error (.danglingDestination state machine) := by
  have hwf := hp.built.wellFormed
  have hclosed := hp.closed
  refine ⟨fun m hm state hstate stored hstored => ?_, fun name tape state machine =>
    ⟨Simulation.start_ne_dangling name tape state machine, fun s hs n => ?_⟩⟩
  · obtain ⟨destination, hdestination⟩ :=
      Option.isSome_iff_exists.mp (hclosed m hm state hstate stored hstored)
    exact ⟨destination, Machine.mem_live_of_stateAt? hdestination, hdestination⟩
  · have hlinked := (Simulation.linked_of_start hwf hs).steps hwf n
    exact hlinked.step_ne_dangling hwf hclosed state machine

/-- The machine `main` has two ways to `done`: one is a transition that was added by a handle, and
the other one went through a state that is removed. -/
def Project.detour : Project × Identity :=
  [Edit.addMachine "main",
    .editMachine "main" (.addState "start"),
    .editMachine "main" (.addState "done"),
    .editMachine "main" (.addState "detour"),
    .editMachine "main" (.editState "start" (.addTransition ⟨1, 1⟩ "a" none .right)),
    .editMachine "main" (.addTransition "start" "detour" "b" none .right),
    .editMachine "main" (.addTransition "detour" "done" "b" none .right),
    .editMachine "main" (.removeState "detour")].foldl
    (fun built edit => edit.apply built) (Project.new 0, 1)

theorem Project.builtInside_detour : detour.1.BuiltInside detour.2 :=
  (BuiltInside.new 0).foldl_edit (by decide)

/-- What led to the removed state is gone, so that the run is rejected and does not fail. -/
theorem Project.detour_never_dangles : detour.1.BuiltInside detour.2 ∧
    (∀ m ∈ detour.1.machines.live, ∀ state ∈ m.states.live, ∀ stored ∈ state.transitions,
      ∃ destination ∈ m.states.live, m.stateAt? stored.2.destination = some destination) ∧
    ∃ s, Simulation.start detour.1 "main" (.ofText "b" '_') = .ok s ∧
      s.step.1 ≠ .error (.danglingDestination "start" "main") ∧
      s.step.1 = .ok (.halts .rejected) := by
  obtain ⟨hstored, hnever⟩ := builtInside_detour.never_dangling
  let s := ((Simulation.start detour.1 "main" (.ofText "b" '_')).toOption).get rfl
  have hs : Simulation.start detour.1 "main" (.ofText "b" '_') = .ok s := rfl
  have hstep := (hnever "main" (.ofText "b" '_') "start" "main").2 s hs 0
  exact ⟨builtInside_detour, hstored, s, hs, hstep, by decide +kernel⟩

end HierarchicalTuring
