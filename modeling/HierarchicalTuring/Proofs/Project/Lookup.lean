import HierarchicalTuring.Proofs.Project.WellFormed
import HierarchicalTuring.Proofs.Store.Roster

/-! # Look-ups after a change

What a change of a machine or a project does to every look-up.

* `Machine.renameState_eq_ok_iff`, `Machine.removeState?_eq_some_iff`,
  `Project.WellFormed.modifyMachine?_eq_some_iff` and `Project.renameMachine_eq_ok_iff` say when a
  change goes well and what it leaves.
* `stateAt?_of_renameState` and `stateAt?_of_removeState` are about the states behind handles,
  `machine?_of_modifyMachine` and `machine?_of_renameMachine` about the machines with names. Neither
  of the two changes the number of machines.
-/

set_option autoImplicit false

namespace HierarchicalTuring

namespace Machine

variable {m m' : Machine} {name newName : String}

theorem renameState_eq_ok_iff : m.renameState name newName = .ok m' ↔
    ∃ h states, m.stateHandle? name = some h ∧ m.states.rename h newName = .ok states ∧
      m' = { m with states } := by
  unfold renameState
  cases hhandle : m.stateHandle? name with
  | none => simp
  | some h =>
    simp only [Option.some.injEq, exists_and_left, exists_eq_left']
    rw [bind_eq_ok_iff]
    refine exists_congr fun states => and_congr_right fun _ => ?_
    exact ⟨fun hok => (Except.ok.inj hok).symm, fun hok => hok ▸ rfl⟩

theorem removeState?_eq_some_iff {state : State} : m.removeState? name = some (state, m') ↔
    ∃ h states, m.states.remove? name = some (h, state, states) ∧
      m' = { m with states := states.mapEntities (State.removeTransitionsTo · h) } := by
  simp only [removeState?, bind, Option.bind_eq_some_iff, pure, Option.some.injEq, Prod.mk.injEq,
    Prod.exists]
  constructor
  · rintro ⟨h, _, states, hstates, rfl, rfl⟩
    exact ⟨h, states, hstates, rfl⟩
  · rintro ⟨h, states, hstates, rfl⟩
    exact ⟨h, state, states, hstates, rfl, rfl⟩

/-- A state under another name. -/
def renamed (name newName : String) (state : State) : State :=
  if state.name = name then { state with name := newName } else state

@[simp] theorem transitions_renamed (name newName : String) (state : State) :
    (renamed name newName state).transitions = state.transitions := by
  unfold renamed
  split <;> rfl

/-- Every handle stands for the state it stood for, the renamed one under its new name. -/
theorem WellFormed.stateAt?_of_renameState (hm : m.WellFormed)
    (hrename : m.renameState name newName = .ok m') (handle : Handle) :
    m'.stateAt? handle = (m.stateAt? handle).map (renamed name newName) := by
  obtain ⟨h, states, hhandle, hstates, rfl⟩ := renameState_eq_ok_iff.mp hrename
  obtain ⟨state, hstate, hname⟩ := hm.stateHandle?_eq_some_iff.mp hhandle
  have hresolve : states.resolve? handle = _ := Store.resolve?_of_rename hstates handle
  show states.resolve? handle = (m.states.resolve? handle).map _
  rw [hresolve]
  by_cases hh : handle = h
  · rw [if_pos hh, hh, show m.states.resolve? h = some state from hstate, Option.map_some,
      Option.map_some, renamed, if_pos hname]
    rfl
  · rw [if_neg hh]
    cases hother : m.states.resolve? handle with
    | none => rfl
    | some other =>
      have hne : other.name ≠ name := fun heq =>
        hh (hm.indexed.handle_eq_of_name_eq hother hstate (heq.trans hname.symm))
      rw [Option.map_some, renamed, if_neg hne]

/-- A handle of a removed state stands for nothing, and the other states have lost what led to
it. -/
theorem WellFormed.stateAt?_of_removeState (hm : m.WellFormed) {state : State}
    (hremove : m.removeState? name = some (state, m')) :
    ∃ h, m.stateAt? h = some state ∧ state.name = name ∧ ∀ handle, m'.stateAt? handle =
      if handle = h then none
      else (m.stateAt? handle).map (State.removeTransitionsTo · h) := by
  obtain ⟨h, states, hstates, rfl⟩ := removeState?_eq_some_iff.mp hremove
  obtain ⟨hstate, hname, -⟩ := hm.indexed.remove?_eq_some_iff.mp hstates
  refine ⟨h, hstate, hname, fun handle => ?_⟩
  show (states.mapEntities _).resolve? handle = _
  rw [Store.resolve?_mapEntities, Store.resolve?_of_remove hm.indexed hstates]
  split <;> rfl

theorem WellFormed.exists_removeState? (hm : m.WellFormed) {h : Handle} {state : State}
    (hstate : m.stateAt? h = some state) : ∃ left, m.removeState? state.name = some (state, left) :=
  ⟨_, removeState?_eq_some_iff.mpr
    ⟨h, _, hm.indexed.remove?_eq_some_iff.mpr ⟨hstate, rfl, rfl⟩, rfl⟩⟩

theorem fields_of_removeState? {state : State} (hremove : m.removeState? name = some (state, m')) :
    m'.name = m.name := by
  obtain ⟨_, _, -, rfl⟩ := removeState?_eq_some_iff.mp hremove
  rfl

end Machine

namespace Project

variable {p q : Project} {name newName : String}

theorem WellFormed.modifyMachine?_eq_some_iff (hp : p.WellFormed) {change : Machine → Machine} :
    p.modifyMachine? name change = some q ↔ ∃ h m, p.machineAt? h = some m ∧ m.name = name ∧
      q = ⟨p.machines.put h.slot (change m)⟩ := by
  simp only [modifyMachine?, bind, Option.bind_eq_some_iff, pure, Option.some.injEq]
  constructor
  · rintro ⟨machines, hmachines, rfl⟩
    obtain ⟨h, m, hm, hname, rfl⟩ := hp.indexed.modify?_eq_some_iff.mp hmachines
    exact ⟨h, m, hm, hname, rfl⟩
  · rintro ⟨h, m, hm, hname, rfl⟩
    exact ⟨_, hp.indexed.modify?_eq_some_iff.mpr ⟨h, m, hm, hname, rfl⟩, rfl⟩

theorem WellFormed.exists_modifyMachine? (hp : p.WellFormed) {m : Machine}
    (hm : p.machine? name = some m) (change : Machine → Machine) :
    ∃ q, p.modifyMachine? name change = some q := by
  obtain ⟨hlive, hname⟩ := hp.machine?_eq_some_iff.mp hm
  obtain ⟨slot, hslot⟩ := Store.mem_live.mp hlive
  have hat : p.machineAt? (p.machines.handleAt slot) = some m :=
    (p.machines.resolve?_handleAt slot).trans hslot
  exact ⟨_, hp.modifyMachine?_eq_some_iff.mpr ⟨_, m, hat, hname, rfl⟩⟩

theorem WellFormed.machine?_of_modifyMachine (hp : p.WellFormed) {change : Machine → Machine}
    (hmodify : p.modifyMachine? name change = some q) (other : String) :
    q.machine? other = if other = name then (p.machine? name).map change else p.machine? other := by
  obtain ⟨h, m, hm, hname, rfl⟩ := hp.modifyMachine?_eq_some_iff.mp hmodify
  have hfound : p.machine? name = some m :=
    hp.machine?_eq_some_iff.mpr ⟨Store.mem_live_of_resolve? hm, hname⟩
  have hput := hp.indexed.get?_put (Store.resolve?_eq_some_iff.mp hm).2 (change m) other
  rw [show Named.name m = name from hname] at hput
  rw [hfound, Option.map_some]
  exact hput

theorem WellFormed.machineCount_of_modifyMachine (hp : p.WellFormed) {change : Machine → Machine}
    (hmodify : p.modifyMachine? name change = some q) : q.machineCount = p.machineCount := by
  obtain ⟨_, _, -, -, rfl⟩ := hp.modifyMachine?_eq_some_iff.mp hmodify
  rfl

theorem renameMachine_eq_ok_iff : p.renameMachine name newName = .ok q ↔
    ∃ h machines, p.machineHandle? name = some h ∧ p.machines.rename h newName = .ok machines ∧
      q = ⟨machines⟩ := by
  unfold renameMachine
  cases hhandle : p.machineHandle? name with
  | none => simp
  | some h =>
    simp only [Option.some.injEq, exists_and_left, exists_eq_left']
    rw [bind_eq_ok_iff]
    refine exists_congr fun machines => and_congr_right fun _ => ?_
    exact ⟨fun hok => (Except.ok.inj hok).symm, fun hok => hok ▸ rfl⟩

/-- The renamed machine is found by its new name only, and every other one as before. -/
theorem WellFormed.machine?_of_renameMachine (hp : p.WellFormed)
    (hrename : p.renameMachine name newName = .ok q) : p.machine? newName = none ∧
    ∃ m, p.machine? name = some m ∧ ∀ other, q.machine? other =
      if other = newName then some { m with name := newName }
      else if other = name then none else p.machine? other := by
  obtain ⟨h, machines, hhandle, hmachines, rfl⟩ := renameMachine_eq_ok_iff.mp hrename
  obtain ⟨m, hm, rfl⟩ := hp.indexed.handleOf?_eq_some_iff.mp hhandle
  have hfree := (Store.rename_eq_ok_iff.mp hmachines).1
  refine ⟨?_, m, hp.machine?_eq_some_iff.mpr ⟨Store.mem_live_of_resolve? hm, rfl⟩,
    hp.indexed.get?_of_rename hmachines hm⟩
  rw [Option.eq_none_iff_forall_ne_some]
  intro other hother
  obtain ⟨hlive, hname⟩ := hp.machine?_eq_some_iff.mp hother
  have hcontains := hp.indexed.contains_eq_true_iff.mpr ⟨other, hlive, hname⟩
  rw [hfree] at hcontains
  cases hcontains

theorem WellFormed.machineCount_of_renameMachine (hp : p.WellFormed)
    (hrename : p.renameMachine name newName = .ok q) : q.machineCount = p.machineCount := by
  have hq := hp.renameMachine hrename
  obtain ⟨h, machines, -, hmachines, rfl⟩ := renameMachine_eq_ok_iff.mp hrename
  exact hp.indexed.size_of_rename hq.indexed hmachines

end Project

end HierarchicalTuring
