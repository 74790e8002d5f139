import HierarchicalTuring.Proofs.Result
import HierarchicalTuring.Proofs.State.Indexed
import HierarchicalTuring.Project

/-! # Well-formed machines and projects

* `Machine.WellFormed` and `Project.WellFormed`: every index of a machine, or of a project and all
  its machines, is right. `Machine.Closed` and `Project.Closed`: every stored transition leads to a
  state of its own machine.
* In a well-formed project a look-up by name gives what carries the name
  (`Machine.WellFormed.state?_eq_some_iff`, `Project.WellFormed.machine?_eq_some_iff`).
* The operations on machines keep them well-formed; those that add described states and transitions
  keep them closed as well.
-/

set_option autoImplicit false

namespace HierarchicalTuring

/-- The index of states is right, and so is the index of every state. -/
def Machine.WellFormed (m : Machine) : Prop :=
  m.states.Sound State.Indexed

/-- The index of machines is right, and every machine is well-formed. -/
def Project.WellFormed (p : Project) : Prop :=
  p.machines.Sound Machine.WellFormed

/-- Every stored transition leads to a state of the machine. -/
def Machine.Closed (m : Machine) : Prop :=
  ∀ state ∈ m.states.live, ∀ stored ∈ state.transitions,
    (m.stateAt? stored.2.destination).isSome = true

/-- Every stored transition leads to a state of its own machine. -/
def Project.Closed (p : Project) : Prop :=
  ∀ m ∈ p.machines.live, m.Closed

namespace Machine

variable {m : Machine}

/-! ## Looking up states -/

theorem mem_live_of_stateAt? {h : Handle} {state : State} (hstate : m.stateAt? h = some state) :
    state ∈ m.states.live :=
  Store.mem_live_of_resolve? hstate

theorem exists_stateAt?_of_mem_live {state : State} (hlive : state ∈ m.states.live) :
    ∃ h, m.stateAt? h = some state := by
  obtain ⟨slot, hslot⟩ := Store.mem_live.mp hlive
  exact ⟨m.states.handleAt slot, (m.states.resolve?_handleAt slot).trans hslot⟩

theorem name_getD_modifyState? (m : Machine) (name : String) (change : State → State) :
    ((m.modifyState? name change).getD m).name = m.name := by
  unfold modifyState?
  cases m.states.modify? name change <;> rfl

theorem Closed.destination {state : State} {c : Char} {t : Transition} (hm : m.Closed)
    (hlive : state ∈ m.states.live) (ht : state.transitionFor? c = some t) :
    ∃ destination, m.stateAt? t.destination = some destination := by
  obtain ⟨id, hmem⟩ := State.mem_of_transitionFor? ht
  exact Option.isSome_iff_exists.mp (hm state hlive (id, t) hmem)

namespace WellFormed

theorem state?_eq_some_iff (hm : m.WellFormed) {name : String} {state : State} :
    m.state? name = some state ↔ state ∈ m.states.live ∧ state.name = name :=
  hm.indexed.get?_eq_some_iff

theorem stateHandle?_eq_some_iff (hm : m.WellFormed) {name : String} {h : Handle} :
    m.stateHandle? name = some h ↔ ∃ state, m.stateAt? h = some state ∧ state.name = name :=
  hm.indexed.handleOf?_eq_some_iff

theorem start?_eq_some_iff (hm : m.WellFormed) {h : Handle} {state : State} :
    m.start? = some (h, state) ↔ m.stateAt? h = some state ∧ state.name = startStateName := by
  unfold start?
  simp only [bind, Option.bind_eq_some_iff, pure, Option.some.injEq, Prod.mk.injEq]
  constructor
  · rintro ⟨_, hhandle, _, hstate, rfl, rfl⟩
    obtain ⟨found, hfound, hname⟩ := hm.stateHandle?_eq_some_iff.mp hhandle
    rw [hstate] at hfound
    cases hfound
    exact ⟨hstate, hname⟩
  · rintro ⟨hstate, hname⟩
    exact ⟨h, hm.stateHandle?_eq_some_iff.mpr ⟨state, hstate, hname⟩, state, hstate, rfl, rfl⟩

theorem indexed_of_stateAt? (hm : m.WellFormed) {h : Handle} {state : State}
    (hstate : m.stateAt? h = some state) : state.Indexed :=
  hm.live state (mem_live_of_stateAt? hstate)

/-! ## Changing machines -/

theorem new (identity : Identity) (name : String) : (Machine.new identity name).WellFormed :=
  Store.Sound.empty identity

theorem insertState (hm : m.WellFormed) {state : State} (hstate : state.Indexed) {h : Handle}
    {m' : Machine} (hinsert : m.insertState state = .ok (h, m')) : m'.WellFormed := by
  unfold Machine.insertState at hinsert
  obtain ⟨⟨h', states⟩, hadd, hm'⟩ := bind_eq_ok_iff.mp hinsert
  cases hm'
  exact hm.add hstate hadd

theorem modifyState (hm : m.WellFormed) {name : String} {change : State → State}
    (hname : ∀ state, (change state).name = state.name)
    (hchange : ∀ state, state.Indexed → (change state).Indexed) {m' : Machine}
    (hmodify : m.modifyState? name change = some m') : m'.WellFormed := by
  simp only [modifyState?, bind, Option.bind_eq_some_iff, pure, Option.some.injEq] at hmodify
  obtain ⟨states, hstates, rfl⟩ := hmodify
  exact hm.modify hname hchange hstates

theorem modifyStateAt (hm : m.WellFormed) {h : Handle} {change : State → State}
    (hname : ∀ state, (change state).name = state.name)
    (hchange : ∀ state, state.Indexed → (change state).Indexed) {m' : Machine}
    (hmodify : m.modifyStateAt? h change = some m') : m'.WellFormed := by
  simp only [modifyStateAt?, bind, Option.bind_eq_some_iff, pure, Option.some.injEq] at hmodify
  obtain ⟨states, hstates, rfl⟩ := hmodify
  exact hm.modifyAt hname hchange hstates

theorem renameState (hm : m.WellFormed) {name newName : String} {m' : Machine}
    (hrename : m.renameState name newName = .ok m') : m'.WellFormed := by
  unfold Machine.renameState at hrename
  split at hrename
  · cases hrename
  next h _ =>
  obtain ⟨states, hstates, hm'⟩ := bind_eq_ok_iff.mp hrename
  cases hm'
  exact hm.rename (fun state name hstate => hstate.congr rfl rfl rfl) hstates

theorem removeState (hm : m.WellFormed) {name : String} {state : State} {m' : Machine}
    (hremove : m.removeState? name = some (state, m')) : m'.WellFormed := by
  simp only [removeState?, bind, Option.bind_eq_some_iff, pure, Option.some.injEq,
    Prod.mk.injEq] at hremove
  obtain ⟨⟨h, found, states⟩, hstates, -, rfl⟩ := hremove
  exact (Store.Sound.remove hm hstates).mapEntities
    (fun state => State.name_removeTransitionsTo state h)
    (fun state hstate => hstate.removeTransitionsTo h)

/-- The state with a name may be replaced by one of the same name. -/
theorem replaceState (hm : m.WellFormed) {name : String} {state changed : State}
    (hstate : m.state? name = some state) (hname : changed.name = state.name)
    (hchanged : changed.Indexed) :
    ∃ slot, m.states.slot? slot = some state ∧
      m.modifyState? name (fun _ => changed) =
        some { m with states := m.states.put slot changed } ∧
      Machine.WellFormed { m with states := m.states.put slot changed } := by
  unfold state? Store.get? at hstate
  obtain ⟨slot, hfind, hslot⟩ := Option.bind_eq_some_iff.mp hstate
  refine ⟨slot, hslot, ?_, hm.put hslot hname hchanged⟩
  simp [modifyState?, Store.modify?, hfind, hslot]

theorem addTransition (hm : m.WellFormed) {source destination input : String}
    {output : Option Char} {direction : Direction} {id : TransitionId} {m' : Machine}
    (hadd : m.addTransition source destination input output direction = .ok (id, m')) :
    m'.WellFormed := by
  unfold Machine.addTransition at hadd
  split at hadd
  · cases hadd
  next h _ =>
  split at hadd
  · cases hadd
  next state hstate =>
  obtain ⟨⟨id', changed⟩, hchanged, hm'⟩ := bind_eq_ok_iff.mp hadd
  cases hm'
  have hlive := (hm.state?_eq_some_iff.mp hstate).1
  have hindexed := (hm.live state hlive).addTransition
    (Transition.nodup_input_make h input output direction) hchanged
  obtain ⟨slot, -, hmodify, hwf⟩ :=
    hm.replaceState hstate (State.fields_of_addTransition hchanged).1 hindexed
  rw [hmodify]
  exact hwf

end WellFormed

end Machine

namespace Project.WellFormed

variable {p : Project}

theorem machine?_eq_some_iff (hp : p.WellFormed) {name : String} {m : Machine} :
    p.machine? name = some m ↔ m ∈ p.machines.live ∧ m.name = name :=
  hp.indexed.get?_eq_some_iff

theorem of_machine? (hp : p.WellFormed) {name : String} {m : Machine}
    (hm : p.machine? name = some m) : m.WellFormed :=
  hp.live m (hp.machine?_eq_some_iff.mp hm).1

theorem new (identity : Identity) : (Project.new identity).WellFormed :=
  Store.Sound.empty identity

theorem insertMachine (hp : p.WellFormed) {m : Machine} (hm : m.WellFormed) {h : Handle}
    {q : Project} (hinsert : p.insertMachine m = .ok (h, q)) : q.WellFormed := by
  unfold Project.insertMachine at hinsert
  obtain ⟨⟨h', machines⟩, hadd, hq⟩ := bind_eq_ok_iff.mp hinsert
  cases hq
  exact hp.add hm hadd

theorem modifyMachine (hp : p.WellFormed) {name : String} {change : Machine → Machine}
    (hname : ∀ m, (change m).name = m.name) (hchange : ∀ m, m.WellFormed → (change m).WellFormed)
    {q : Project} (hmodify : p.modifyMachine? name change = some q) : q.WellFormed := by
  simp only [modifyMachine?, bind, Option.bind_eq_some_iff, pure, Option.some.injEq] at hmodify
  obtain ⟨machines, hmachines, rfl⟩ := hmodify
  exact hp.modify hname hchange hmachines

theorem modifyMachineAt (hp : p.WellFormed) {h : Handle} {change : Machine → Machine}
    (hname : ∀ m, (change m).name = m.name) (hchange : ∀ m, m.WellFormed → (change m).WellFormed)
    {q : Project} (hmodify : p.modifyMachineAt? h change = some q) : q.WellFormed := by
  simp only [modifyMachineAt?, bind, Option.bind_eq_some_iff, pure, Option.some.injEq] at hmodify
  obtain ⟨machines, hmachines, rfl⟩ := hmodify
  exact hp.modifyAt hname hchange hmachines

theorem renameMachine (hp : p.WellFormed) {name newName : String} {q : Project}
    (hrename : p.renameMachine name newName = .ok q) : q.WellFormed := by
  unfold Project.renameMachine at hrename
  split at hrename
  · cases hrename
  next h _ =>
  obtain ⟨machines, hmachines, hq⟩ := bind_eq_ok_iff.mp hrename
  cases hq
  exact hp.rename (fun m name hm => hm) hmachines

theorem removeMachine (hp : p.WellFormed) {name : String} {m : Machine} {q : Project}
    (hremove : p.removeMachine? name = some (m, q)) : q.WellFormed := by
  simp only [removeMachine?, bind, Option.bind_eq_some_iff, pure, Option.some.injEq,
    Prod.mk.injEq] at hremove
  obtain ⟨⟨h, found, machines⟩, hmachines, -, rfl⟩ := hremove
  exact Store.Sound.remove hp hmachines

end Project.WellFormed

end HierarchicalTuring
