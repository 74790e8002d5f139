import HierarchicalTuring.Proofs.Simulation.Dangling

/-! # Removing a state

* `State.LosesEdgesTo h s s'`: of all that a state has, only its transitions to the state behind `h`
  are gone. `Indexed.losesEdgesTo` finds this of the operation on one state.
* `Machine.WellFormed.entries_of_removeState` and `stateHandle?_of_removeState` are the frame: which
  states are left, and by which names and handles.
* `Machine.Closed.unreferenced_of_addState`: in a closed machine no transition leads to a state
  that is added, not even to one with the name of a removed state.
* `Project.Built.removal_cuts_edges_into_state` puts these together.
-/

set_option autoImplicit false

namespace HierarchicalTuring

namespace State

variable {s : State} {t : Transition} {h : Handle}

/-! ## One state -/

/-- The transitions to one state are gone and their characters are free, and everything else about
the state is as it was. -/
structure LosesEdgesTo (h : Handle) (s s' : State) : Prop where
  name : s'.name = s.name
  accepting : s'.accepting = s.accepting
  submachine : s'.submachine = s.submachine
  position : s'.position = s.position
  transitions : s'.transitions = s.transitions.filter fun stored => stored.2.destination ≠ h
  transitionFor? : ∀ c,
    s'.transitionFor? c = (s.transitionFor? c).filter fun t => t.destination ≠ h
  claimable : ∀ t : Transition, t.input ≠ [] →
    (∀ c ∈ t.input, ∀ old, s.transitionFor? c = some old → old.destination = h) →
    s'.addTransition t = .ok (s.nextId, s'.store t)

theorem fields_withoutTransition (s : State) (id : TransitionId) :
    (s.withoutTransition id).accepting = s.accepting ∧
      (s.withoutTransition id).submachine = s.submachine ∧
      (s.withoutTransition id).position = s.position := by
  unfold withoutTransition removeTransition?
  cases s.transition? id <;> exact ⟨rfl, rfl, rfl⟩

theorem fields_foldl_withoutTransition (s : State) (ids : List TransitionId) :
    (ids.foldl withoutTransition s).accepting = s.accepting ∧
      (ids.foldl withoutTransition s).submachine = s.submachine ∧
      (ids.foldl withoutTransition s).position = s.position := by
  induction ids generalizing s with
  | nil => exact ⟨rfl, rfl, rfl⟩
  | cons id ids ih =>
    obtain ⟨haccepting, hsubmachine, hposition⟩ := s.fields_withoutTransition id
    rw [List.foldl_cons, ← haccepting, ← hsubmachine, ← hposition]
    exact ih (s.withoutTransition id)

namespace Indexed

theorem transitionFor?_removeTransitionsTo (hs : s.Indexed) (h : Handle) (c : Char) :
    (s.removeTransitionsTo h).transitionFor? c =
      (s.transitionFor? c).filter fun t => t.destination ≠ h := by
  refine Option.ext fun t => ?_
  rw [(hs.removeTransitionsTo h).transitionFor?_eq_some_iff, hs.transitions_removeTransitionsTo,
    Option.filter_eq_some_iff, hs.transitionFor?_eq_some_iff]
  simp only [List.mem_filter]
  constructor
  · rintro ⟨id, ⟨hmem, hleads⟩, hc⟩
    exact ⟨⟨id, hmem, hc⟩, hleads⟩
  · rintro ⟨⟨id, hmem, hc⟩, hleads⟩
    exact ⟨id, ⟨hmem, hleads⟩, hc⟩

/-- Characters that led to the state can be claimed again, all of them by one transition. -/
theorem addTransition_removeTransitionsTo (hs : s.Indexed) (hinput : t.input ≠ [])
    (hled : ∀ c ∈ t.input, ∀ old, s.transitionFor? c = some old → old.destination = h) :
    (s.removeTransitionsTo h).addTransition t =
      .ok (s.nextId, (s.removeTransitionsTo h).store t) := by
  have hnext : (s.removeTransitionsTo h).nextId = s.nextId := nextId_foldl_withoutTransition s _
  rw [← hnext]
  refine (hs.removeTransitionsTo h).addTransition_of_apart hinput fun stored hstored c hc hread => ?_
  rw [hs.transitions_removeTransitionsTo] at hstored
  obtain ⟨hold, hne⟩ := List.mem_filter.mp hstored
  have hfound := hs.transitionFor?_eq_some_iff.mpr ⟨stored.1, hold, hread⟩
  exact of_decide_eq_true hne (hled c hc stored.2 hfound)

theorem losesEdgesTo (hs : s.Indexed) (h : Handle) : s.LosesEdgesTo h (s.removeTransitionsTo h) := by
  obtain ⟨haccepting, hsubmachine, hposition⟩ := s.fields_foldl_withoutTransition
    ((s.transitions.filter fun stored => stored.2.destination = h).map Prod.fst)
  exact ⟨name_removeTransitionsTo s h, haccepting, hsubmachine, hposition,
    hs.transitions_removeTransitionsTo h, hs.transitionFor?_removeTransitionsTo h,
    fun _ => hs.addTransition_removeTransitionsTo⟩

end Indexed

end State

namespace Machine

variable {m left : Machine} {name : String} {state : State} {h : Handle}

/-! ## All states -/

/-- A removal by the name of a state takes out this state. -/
theorem WellFormed.stateAt?_left (hm : m.WellFormed) (hstate : m.stateAt? h = some state)
    (hremove : m.removeState? state.name = some (state, left)) (handle : Handle) :
    left.stateAt? handle =
      if handle = h then none else (m.stateAt? handle).map (State.removeTransitionsTo · h) := by
  obtain ⟨found, hfound, -, hleft⟩ := hm.stateAt?_of_removeState hremove
  have hsame : found = h := hm.indexed.handle_eq_of_name_eq hfound hstate rfl
  rw [hleft, hsame]

/-- The states that are left stand in the order in which they stood. -/
theorem WellFormed.entries_of_removeState (hm : m.WellFormed) (hstate : m.stateAt? h = some state)
    (hremove : m.removeState? state.name = some (state, left)) :
    left.states.entries = (m.states.entries.filter fun entry => entry.1 ≠ h).map
      fun entry => (entry.1, entry.2.removeTransitionsTo h) := by
  refine Store.entries_eq_of_resolve? ?_ fun handle other => ?_
  · rw [List.pairwise_map]
    exact m.states.pairwise_entries.filter _
  · have hleft : left.states.resolve? handle = _ := hm.stateAt?_left hstate hremove handle
    rw [hleft, List.mem_map]
    constructor
    · rintro ⟨⟨kept, old⟩, hold, heq⟩
      cases heq
      obtain ⟨hmem, hne⟩ := List.mem_filter.mp hold
      have hresolve : m.stateAt? kept = some old := Store.mem_entries.mp hmem
      rw [if_neg (of_decide_eq_true hne), hresolve, Option.map_some]
    · intro hother
      split at hother
      · cases hother
      next hne =>
      obtain ⟨old, hold, rfl⟩ := Option.map_eq_some_iff.mp hother
      exact ⟨(handle, old), List.mem_filter.mpr ⟨Store.mem_entries.mpr hold, decide_eq_true hne⟩, rfl⟩

theorem WellFormed.stateHandle?_of_removeState (hm : m.WellFormed)
    (hstate : m.stateAt? h = some state)
    (hremove : m.removeState? state.name = some (state, left)) (other : String) :
    left.stateHandle? other = if other = state.name then none else m.stateHandle? other := by
  have hleft := hm.stateAt?_left hstate hremove
  refine Option.ext fun handle => ?_
  rw [(hm.removeState hremove).stateHandle?_eq_some_iff]
  by_cases hother : other = state.name
  · rw [if_pos hother]
    refine iff_of_false ?_ nofun
    rintro ⟨found, hfound, hname⟩
    rw [hleft] at hfound
    split at hfound
    · cases hfound
    next hne =>
    obtain ⟨old, hold, rfl⟩ := Option.map_eq_some_iff.mp hfound
    rw [State.name_removeTransitionsTo, hother] at hname
    exact hne (hm.indexed.handle_eq_of_name_eq hold hstate hname)
  · rw [if_neg hother, hm.stateHandle?_eq_some_iff]
    constructor
    · rintro ⟨found, hfound, hname⟩
      rw [hleft] at hfound
      split at hfound
      · cases hfound
      obtain ⟨old, hold, rfl⟩ := Option.map_eq_some_iff.mp hfound
      exact ⟨old, hold, (State.name_removeTransitionsTo old h) ▸ hname⟩
    · rintro ⟨old, hold, hname⟩
      have hne : handle ≠ h := by
        rintro rfl
        rw [hstate] at hold
        cases hold
        exact hother hname.symm
      exact ⟨old.removeTransitionsTo h, by rw [hleft, if_neg hne, hold, Option.map_some],
        (State.name_removeTransitionsTo old h).trans hname⟩

/-- A name that no state has removes nothing. -/
theorem WellFormed.removeState?_eq_none_iff (hm : m.WellFormed) :
    m.removeState? name = none ↔ m.state? name = none := by
  simp only [Option.eq_none_iff_forall_ne_some]
  constructor
  · intro hnone state hstate
    obtain ⟨hlive, rfl⟩ := hm.state?_eq_some_iff.mp hstate
    obtain ⟨h, hat⟩ := exists_stateAt?_of_mem_live hlive
    obtain ⟨left, hremove⟩ := hm.exists_removeState? hat
    exact hnone _ hremove
  · rintro hnone ⟨state, left⟩ hremove
    obtain ⟨h, hat, hname, -⟩ := hm.stateAt?_of_removeState hremove
    exact hnone state (hm.state?_eq_some_iff.mpr ⟨mem_live_of_stateAt? hat, hname⟩)

/-! ## A state of the same name -/

/-- A new state comes into a slot that no handle of the machine stood for. -/
theorem Closed.unreferenced_of_addState (hclosed : m.Closed)
    {added : Machine} (hadd : m.addState name = .ok (h, added)) :
    h = m.states.handleAt m.states.slots.length ∧ added.stateAt? h = some (State.new name) ∧
      ∀ other ∈ added.states.live, ∀ stored ∈ other.transitions, stored.2.destination ≠ h := by
  obtain ⟨⟨h', states⟩, hstates, heq⟩ := bind_eq_ok_iff.mp hadd
  cases heq
  obtain ⟨-, rfl, -⟩ := Store.add_eq_ok_iff.mp hstates
  have hnew : m.stateAt? (m.states.handleAt m.states.slots.length) = none :=
    Store.resolve?_next m.states
  refine ⟨rfl, (Store.resolve?_of_add hstates _).trans (if_pos rfl), ?_⟩
  intro other hother stored hstored hleads
  rw [Store.live_add hstates] at hother
  rcases List.mem_append.mp hother with hold | hlast
  · have hresolves := hclosed other hold stored hstored
    rw [hleads, hnew] at hresolves
    cases hresolves
  · rw [List.mem_singleton.mp hlast] at hstored
    cases hstored

/-- A removal gives no handle back: the next new state gets the one that it would have got. -/
theorem WellFormed.nextHandle_of_removeState (hm : m.WellFormed)
    (hremove : m.removeState? name = some (state, left)) :
    left.states.handleAt left.states.slots.length =
      m.states.handleAt m.states.slots.length := by
  obtain ⟨h, states, hstates, rfl⟩ := removeState?_eq_some_iff.mp hremove
  obtain ⟨-, -, rfl⟩ := hm.indexed.remove?_eq_some_iff.mp hstates
  simp [Store.handleAt, Store.mapEntities]

/-- The name of a removed state is free. -/
theorem WellFormed.exists_addState_again (hm : m.WellFormed) (hstate : m.stateAt? h = some state)
    (hremove : m.removeState? state.name = some (state, left)) :
    ∃ again added, left.addState state.name = .ok (again, added) := by
  have hleft := hm.removeState hremove
  have hfree : Named.name (State.new state.name) ∉ left.states.names := by
    intro hmem
    obtain ⟨other, hother, hname⟩ := List.mem_map.mp hmem
    obtain ⟨handle, hat⟩ := exists_stateAt?_of_mem_live hother
    have hhandle : left.stateHandle? state.name = some handle :=
      hleft.stateHandle?_eq_some_iff.mpr ⟨other, hat, hname⟩
    rw [hm.stateHandle?_of_removeState hstate hremove, if_pos rfl] at hhandle
    cases hhandle
  obtain ⟨again, states, hadd⟩ := hleft.indexed.exists_add hfree
  refine ⟨again, { left with states }, ?_⟩
  unfold Machine.addState Machine.insertState
  rw [hadd]
  rfl

end Machine

/-- Removing a state gives it back as it was, its loops included. All other states stay, in their
order and under their names and handles, and lose their transitions to the removed state, whose
characters are free again, and nothing else. If all destinations resolved before, a state that is
added under the name of the removed one has a handle of its own, and no transition leads to it. A
name that no state has removes nothing. -/
theorem Project.Built.removal_cuts_edges_into_state {next : Identity} {p : Project}
    (hp : p.Built next) {m : Machine} (hlive : m ∈ p.machines.live) :
    (∀ h state, m.stateAt? h = some state → ∃ left,
      m.removeState? state.name = some (state, left) ∧ left.name = m.name ∧
      left.states.entries.map Prod.fst = (m.states.entries.map Prod.fst).filter (· ≠ h) ∧
      left.stateAt? h = none ∧
      (∀ handle ≠ h, Option.Rel (State.LosesEdgesTo h) (m.stateAt? handle) (left.stateAt? handle)) ∧
      (∀ name, left.stateHandle? name =
        if name = state.name then none else m.stateHandle? name) ∧
      (m.Closed → ∃ again added, left.addState state.name = .ok (again, added) ∧
        m.stateAt? again = none ∧ added.stateAt? again = some (State.new state.name) ∧
        ∀ other ∈ added.states.live, ∀ stored ∈ other.transitions,
          stored.2.destination ≠ again)) ∧
    ∀ name, m.state? name = none →
      m.removeState? name = none ∧ (Machine.Edit.removeState name).apply m = m := by
  have hm := hp.wellFormed.live m hlive
  refine ⟨fun h state hstate => ?_, fun name hname => ?_⟩
  · obtain ⟨left, hremove⟩ := hm.exists_removeState? hstate
    have hat := hm.stateAt?_left hstate hremove
    refine ⟨left, hremove, Machine.fields_of_removeState? hremove, ?_, (hat h).trans (if_pos rfl),
      fun handle hne => ?_, hm.stateHandle?_of_removeState hstate hremove, fun hclosed => ?_⟩
    · rw [hm.entries_of_removeState hstate hremove, List.map_map, List.filter_map]
      rfl
    · rw [hat, if_neg hne]
      cases hother : m.stateAt? handle with
      | none => exact .none
      | some other => exact .some ((hm.indexed_of_stateAt? hother).losesEdgesTo h)
    · obtain ⟨again, added, hadd⟩ := hm.exists_addState_again hstate hremove
      have hleft : left.Closed := hm.closed_removeState hclosed hremove
      obtain ⟨hagain, hadded, hunreferenced⟩ := hleft.unreferenced_of_addState hadd
      refine ⟨again, added, hadd, ?_, hadded, hunreferenced⟩
      rw [hagain, hm.nextHandle_of_removeState hremove]
      exact Store.resolve?_next m.states
  · have hnone := hm.removeState?_eq_none_iff.mpr hname
    exact ⟨hnone, by simp only [Machine.Edit.apply, hnone]⟩

/-- Two transitions lead from `start` to `hub`, and one leads back to it from `hub` itself. -/
def Project.hubSample : Project × Identity :=
  [Edit.addMachine "main",
    .editMachine "main" (.addState "start"),
    .editMachine "main" (.addState "hub"),
    .editMachine "main" (.addState "done"),
    .editMachine "main" (.addTransition "start" "hub" "ab" none .right),
    .editMachine "main" (.addTransition "start" "done" "c" none .right),
    .editMachine "main" (.addTransition "start" "hub" "d" (some 'x') .stay),
    .editMachine "main" (.addTransition "start" "start" "e" none .left),
    .editMachine "main" (.addTransition "hub" "hub" "f" none .right),
    .editMachine "main" (.addTransition "hub" "done" "g" none .right)].foldl
    (fun built edit => edit.apply built) (Project.new 0, 1)

theorem Project.hub_removed : ∃ m ∈ Project.hubSample.1.machines.live,
    ∃ hub start left start' again added, m.Closed ∧ m.stateAt? ⟨1, 1⟩ = some hub ∧
      m.stateAt? ⟨1, 0⟩ = some start ∧ m.removeState? hub.name = some (hub, left) ∧
      hub.transitions.map Prod.fst = [0, 1] ∧ left.stateAt? ⟨1, 0⟩ = some start' ∧
      start.transitions.map Prod.fst = [0, 1, 2, 3] ∧
      start'.transitions.map Prod.fst = [1, 3] ∧
      start'.transitionFor? 'b' = none ∧ (start'.transitionFor? 'c').isSome = true ∧
      left.addState hub.name = .ok (again, added) ∧ m.stateAt? again = none ∧
      m.state? "nowhere" = none ∧ m.removeState? "nowhere" = none := by
  let m := (Project.hubSample.1.machine? "main").get rfl
  let hub := (m.stateAt? ⟨1, 1⟩).get rfl
  let start := (m.stateAt? ⟨1, 0⟩).get rfl
  have hlive : m ∈ Project.hubSample.1.machines.live := List.mem_cons_self
  have hclosed : m.Closed := by
    unfold Machine.Closed
    decide
  have hhub : m.stateAt? ⟨1, 1⟩ = some hub := rfl
  have hstart : m.stateAt? ⟨1, 0⟩ = some start := rfl
  obtain ⟨hremoval, hunknown⟩ :=
    ((Built.new 0).foldl_edit _ : Project.hubSample.1.Built _).removal_cuts_edges_into_state hlive
  obtain ⟨left, hremove, -, -, -, hothers, -, hagain⟩ := hremoval ⟨1, 1⟩ hub hhub
  obtain ⟨again, added, hadd, hnew, -⟩ := hagain hclosed
  have hboth := hothers ⟨1, 0⟩ (by decide)
  rw [hstart] at hboth
  generalize hleft : left.stateAt? ⟨1, 0⟩ = found at hboth
  obtain ⟨hloses⟩ := hboth
  next start' =>
  refine ⟨m, hlive, hub, start, left, start', again, added, hclosed, hhub, hstart, hremove, rfl,
    hleft, rfl, ?_, ?_, ?_, hadd, hnew, rfl, (hunknown "nowhere" rfl).1⟩
  · rw [hloses.transitions]
    decide
  · rw [hloses.transitionFor?]
    decide
  · rw [hloses.transitionFor?]
    decide

end HierarchicalTuring
