import HierarchicalTuring.Proofs.Procedure
import HierarchicalTuring.Proofs.Project.Built

/-! # Edits in place

Every edit as the checks and changes it is made of, in their order.

* `Store.addInPlace`, `Store.renameInPlace` and `State.addTransitionInPlace` change one structure
  after the other. Each comes to the same as the operation that makes a new value
  (`Store.exec_addInPlace`, `Store.exec_renameInPlace`, `State.exec_addTransitionInPlace`), and so do
  the edits of machines and projects that are made of them.
* `Store.inPlace` works on an entity in its slot, which a name or a handle leads to.
* `Project.Edit.perform` is any change of a project, carried out in place. It leaves what
  `Project.Edit.apply` makes, and its result is `Project.Edit.result` (`Project.Edit.exec_perform`).
-/

set_option autoImplicit false

namespace HierarchicalTuring

open Procedure (outcome exec_focus_of_outcome)

namespace Store

variable {α β : Type}

/-! ## Entities in their slots -/

def placeNamed? (name : String) (s : Store α) : Option (Nat × α) := do
  let slot ← s.index.find? name
  let entity ← s.slot? slot
  return (slot, entity)

def placeOf? (h : Handle) (s : Store α) : Option (Nat × α) := do
  let entity ← s.resolve? h
  return (h.slot, entity)

/-- A procedure on the entity of a slot, or another one where nothing is found. -/
def inPlace (place? : Store α → Option (Nat × α)) (absent : Procedure (Store α) β)
    (proc : Procedure α β) : Procedure (Store α) β := do
  let s ← get
  match place? s with
  | none => absent
  | some (slot, entity) => proc.focus (fun _ => entity) fun t changed => t.put slot changed

theorem get?_eq_placeNamed? (s : Store α) (name : String) :
    s.get? name = (s.placeNamed? name).map Prod.snd := by
  unfold get? placeNamed?
  cases s.index.find? name with
  | none => rfl
  | some slot =>
    show s.slot? slot = Option.map Prod.snd ((s.slot? slot).bind fun entity => some (slot, entity))
    cases s.slot? slot <;> rfl

theorem modify?_eq_placeNamed? (s : Store α) (name : String) (change : α → α) :
    s.modify? name change =
      (s.placeNamed? name).map fun place => s.put place.1 (change place.2) := by
  unfold modify? placeNamed?
  cases s.index.find? name with
  | none => rfl
  | some slot =>
    show ((s.slot? slot).bind fun entity => some (s.put slot (change entity))) =
      Option.map _ ((s.slot? slot).bind fun entity => some (slot, entity))
    cases s.slot? slot <;> rfl

theorem resolve?_eq_placeOf? (s : Store α) (h : Handle) :
    s.resolve? h = (s.placeOf? h).map Prod.snd := by
  unfold placeOf?
  cases s.resolve? h <;> rfl

theorem modifyAt?_eq_placeOf? (s : Store α) (h : Handle) (change : α → α) :
    s.modifyAt? h change = (s.placeOf? h).map fun place => s.put place.1 (change place.2) := by
  unfold modifyAt? placeOf?
  cases s.resolve? h <;> rfl

theorem slot?_of_placeNamed? {s : Store α} {name : String} {place : Nat × α}
    (h : s.placeNamed? name = some place) : s.slot? place.1 = some place.2 := by
  simp only [placeNamed?, bind, Option.bind_eq_some_iff, pure, Option.some.injEq] at h
  obtain ⟨slot, -, entity, hslot, rfl⟩ := h
  exact hslot

theorem slot?_of_placeOf? {s : Store α} {h : Handle} {place : Nat × α}
    (hplace : s.placeOf? h = some place) : s.slot? place.1 = some place.2 := by
  simp only [placeOf?, bind, Option.bind_eq_some_iff, pure, Option.some.injEq] at hplace
  obtain ⟨entity, hresolve, rfl⟩ := hplace
  exact (resolve?_eq_some_iff.mp hresolve).2

theorem put_self {s : Store α} {slot : Nat} {entity : α} (h : s.slot? slot = some entity) :
    s.put slot entity = s := by
  have hslot : s.slots[slot]? = some (some entity) := slot?_eq_some_iff.mp h
  have hset : s.slots.set slot (some entity) = s.slots := by
    obtain ⟨hlt, heq⟩ := List.getElem?_eq_some_iff.mp hslot
    rw [← heq]
    exact List.set_getElem_self hlt
  unfold put
  rw [hset]

/-- What a procedure on entities comes to, it comes to on the entity that is found. -/
theorem exec_inPlace {place? : Store α → Option (Nat × α)} {proc : Procedure α Unit}
    {result : α → Except ModelError Unit} {change : α → α}
    (hexec : ∀ entity, proc.exec entity = (result entity, change entity)) (s : Store α) :
    (inPlace place? (pure ()) proc).exec s =
      (((place? s).map Prod.snd).elim (.ok ()) result,
        ((place? s).map fun place => s.put place.1 (change place.2)).getD s) := by
  unfold inPlace
  simp only [Procedure.exec_bind, Procedure.exec_get]
  cases place? s with
  | none => rfl
  | some place =>
    simp only [Procedure.exec_focus, hexec]
    rfl

/-! ## Adding and renaming -/

variable [Named α]

/-- Adds an entity: the name is looked up, the slot is made, and the name is entered. -/
def addInPlace (entity : α) : Procedure (Store α) Handle := do
  let s ← get
  if s.contains (Named.name entity) then throw (.nameInUse (Named.name entity))
  else
    modify fun t => { t with slots := t.slots ++ [some entity] }
    modify fun t => { t with index := t.index.insert (Named.name entity) s.slots.length }
    return s.handleAt s.slots.length

/-- Renames an entity: the new name and the handle are looked up, the entity gets its name, the old
name is freed, and the new one is entered. -/
def renameInPlace (h : Handle) (newName : String) : Procedure (Store α) Unit := do
  let s ← get
  if s.contains newName then throw (.nameInUse newName)
  else
    match s.resolve? h with
    | none => throw (.notFound h.text)
    | some entity =>
      modify fun t => t.put h.slot (Named.withName entity newName)
      modify fun t => { t with index := t.index.erase (Named.name entity) }
      modify fun t => { t with index := t.index.insert newName h.slot }

def renameNamedInPlace (name newName : String) : Procedure (Store α) Unit := do
  let s ← get
  match s.handleOf? name with
  | none => throw (.notFound name)
  | some h => renameInPlace h newName

def renameNamed (s : Store α) (name newName : String) : Except ModelError (Store α) :=
  match s.handleOf? name with
  | none => .error (.notFound name)
  | some h => s.rename h newName

theorem exec_addInPlace (s : Store α) (entity : α) :
    (addInPlace entity).exec s = outcome s (s.add entity) := by
  unfold addInPlace add
  simp only [Procedure.exec_bind, Procedure.exec_get]
  split
  · rfl
  · rfl

theorem exec_renameInPlace (s : Store α) (h : Handle) (newName : String) :
    (renameInPlace h newName).exec s =
      outcome s ((s.rename h newName).map fun t => ((), t)) := by
  unfold renameInPlace rename
  simp only [Procedure.exec_bind, Procedure.exec_get]
  split
  · rfl
  · cases s.resolve? h with
    | none => rfl
    | some entity => rfl

theorem exec_renameNamedInPlace (s : Store α) (name newName : String) :
    (renameNamedInPlace name newName).exec s =
      outcome s ((s.renameNamed name newName).map fun t => ((), t)) := by
  unfold renameNamedInPlace renameNamed
  simp only [Procedure.exec_bind, Procedure.exec_get]
  cases s.handleOf? name with
  | none => rfl
  | some h => exact exec_renameInPlace s h newName

end Store

/-! ## States -/

namespace State

/-- Adds a transition: everything is looked up, a number is taken, the characters are entered one by
one, and the transition is stored. -/
def addTransitionInPlace (t : Transition) : Procedure State TransitionId := do
  let s ← get
  if t.input = [] then throw .emptyInput
  else
    match s.idOf? t with
    | some id => return id
    | none =>
      match s.clash? t with
      | some c => throw (.inputInUse c)
      | none =>
        modify fun u => { u with nextId := s.nextId + 1 }
        t.input.forM fun c => modify fun u => { u with byInput := u.byInput.insert c s.nextId }
        modify fun u => { u with transitions := u.transitions ++ [(s.nextId, t)] }
        return s.nextId

theorem exec_forM_insert (input : List Char) (id : TransitionId) (s : State) :
    Procedure.exec (input.forM fun c => modify fun u : State =>
      { u with byInput := u.byInput.insert c id }) s =
        (.ok (), { s with byInput := s.byInput.insertAll input id }) := by
  induction input generalizing s with
  | nil => rfl
  | cons c rest ih => exact ih { s with byInput := s.byInput.insert c id }

theorem exec_addTransitionInPlace (s : State) (t : Transition) :
    (addTransitionInPlace t).exec s = outcome s (s.addTransition t) := by
  unfold addTransitionInPlace addTransition
  simp only [Procedure.exec_bind, Procedure.exec_get]
  split
  · rfl
  · cases s.idOf? t with
    | some id => rfl
    | none =>
      cases s.clash? t with
      | some c => rfl
      | none =>
        simp only [Procedure.exec_bind, Procedure.exec_modify, exec_forM_insert]
        rfl

def Edit.perform : State.Edit → Procedure State Unit
  | addTransition destination input output direction => do
    let _ ← addTransitionInPlace (.make destination input output direction)
  | edit => modify edit.apply

def Edit.result : State.Edit → State → Except ModelError Unit
  | addTransition destination input output direction, s =>
    (s.addTransition (.make destination input output direction)).map fun _ => ()
  | _, _ => .ok ()

theorem Edit.exec_perform (edit : State.Edit) (s : State) :
    edit.perform.exec s = (edit.result s, edit.apply s) := by
  cases edit with
  | addTransition destination input output direction =>
    simp only [perform, result, apply, Procedure.exec_bind, exec_addTransitionInPlace]
    cases s.addTransition (.make destination input output direction) <;> rfl
  | _ => rfl

end State

/-! ## Machines -/

namespace Machine

def onStates {α : Type} (proc : Procedure (Store State) α) : Procedure Machine α :=
  proc.focus Machine.states fun m states => { m with states }

def addStateInPlace (name : String) : Procedure Machine Handle :=
  onStates (Store.addInPlace (State.new name))

def renameStateInPlace (name newName : String) : Procedure Machine Unit :=
  onStates (Store.renameNamedInPlace name newName)

/-- Adds an edge: the destination is looked up, then the source, which is changed in its slot. -/
def addTransitionInPlace (source destination input : String) (output : Option Char)
    (direction : Direction) : Procedure Machine TransitionId := do
  let m ← get
  match m.stateHandle? destination with
  | none => throw (.notFound destination)
  | some h =>
    onStates (Store.inPlace (Store.placeNamed? source) (throw (.notFound source))
      (State.addTransitionInPlace (.make h input output direction)))

theorem exec_onStates {α : Type} {proc : Procedure (Store State) α} {m : Machine}
    {result : Except ModelError (α × Store State)}
    (h : proc.exec m.states = outcome m.states result) :
    (onStates proc).exec m =
      outcome m (result.map fun left => (left.1, { m with states := left.2 })) :=
  exec_focus_of_outcome h rfl

theorem addState_eq_add (m : Machine) (name : String) :
    m.addState name =
      (m.states.add (State.new name)).map fun left => (left.1, { m with states := left.2 }) := by
  unfold addState insertState
  cases m.states.add (State.new name) <;> rfl

theorem exec_addStateInPlace (m : Machine) (name : String) :
    (addStateInPlace name).exec m = outcome m (m.addState name) := by
  rw [addStateInPlace, exec_onStates (Store.exec_addInPlace m.states (State.new name)),
    addState_eq_add]

theorem renameState_eq_renameNamed (m : Machine) (name newName : String) :
    m.renameState name newName =
      (m.states.renameNamed name newName).map fun states => { m with states } := by
  unfold renameState Store.renameNamed stateHandle?
  cases m.states.handleOf? name with
  | none => rfl
  | some h => rfl

theorem exec_renameStateInPlace (m : Machine) (name newName : String) :
    (renameStateInPlace name newName).exec m =
      outcome m ((m.renameState name newName).map fun changed => ((), changed)) := by
  rw [renameStateInPlace, exec_onStates (Store.exec_renameNamedInPlace m.states name newName),
    renameState_eq_renameNamed]
  cases m.states.renameNamed name newName <;> rfl

theorem exec_addTransitionInPlace (m : Machine) (source destination input : String)
    (output : Option Char) (direction : Direction) :
    (addTransitionInPlace source destination input output direction).exec m =
      outcome m (m.addTransition source destination input output direction) := by
  unfold addTransitionInPlace addTransition
  simp only [Procedure.exec_bind, Procedure.exec_get]
  cases m.stateHandle? destination with
  | none => rfl
  | some h =>
    simp only [onStates, Procedure.exec_focus, Store.inPlace, Procedure.exec_bind,
      Procedure.exec_get, state?, modifyState?, Store.get?_eq_placeNamed?,
      Store.modify?_eq_placeNamed?]
    cases hplace : m.states.placeNamed? source with
    | none => rfl
    | some place =>
      simp only [Option.map_some, Procedure.exec_focus, State.exec_addTransitionInPlace]
      cases place.2.addTransition (.make h input output direction) with
      -- The source is put back as it was.
      | error e =>
        show (Except.error e, { m with states := m.states.put place.1 place.2 }) = _
        rw [Store.put_self (Store.slot?_of_placeNamed? hplace)]
        rfl
      | ok left => rfl

def Edit.perform : Machine.Edit → Procedure Machine Unit
  | addState name => do
    let _ ← addStateInPlace name
  | renameState name newName => renameStateInPlace name newName
  | addTransition source destination input output direction => do
    let _ ← addTransitionInPlace source destination input output direction
  | removeState name => modify (removeState name).apply
  | editState name edit =>
    onStates (Store.inPlace (Store.placeNamed? name) (pure ()) edit.perform)
  | editStateAt h edit => onStates (Store.inPlace (Store.placeOf? h) (pure ()) edit.perform)

def Edit.result : Machine.Edit → Machine → Except ModelError Unit
  | addState name, m => (m.addState name).map fun _ => ()
  | renameState name newName, m => (m.renameState name newName).map fun _ => ()
  | addTransition source destination input output direction, m =>
    (m.addTransition source destination input output direction).map fun _ => ()
  | removeState _, _ => .ok ()
  | editState name edit, m => (m.state? name).elim (.ok ()) edit.result
  | editStateAt h edit, m => (m.stateAt? h).elim (.ok ()) edit.result

theorem Edit.exec_perform (edit : Machine.Edit) (m : Machine) :
    edit.perform.exec m = (edit.result m, edit.apply m) := by
  cases edit with
  | addState name =>
    simp only [perform, result, apply, Procedure.exec_bind, exec_addStateInPlace]
    cases m.addState name <;> rfl
  | renameState name newName =>
    simp only [perform, result, apply, exec_renameStateInPlace]
    cases m.renameState name newName <;> rfl
  | addTransition source destination input output direction =>
    simp only [perform, result, apply, Procedure.exec_bind, exec_addTransitionInPlace]
    cases m.addTransition source destination input output direction <;> rfl
  | removeState name => rfl
  | editState name edit =>
    simp only [perform, result, apply, onStates, Procedure.exec_focus,
      Store.exec_inPlace edit.exec_perform, state?, modifyState?, Store.get?_eq_placeNamed?,
      Store.modify?_eq_placeNamed?]
    cases m.states.placeNamed? name <;> rfl
  | editStateAt h edit =>
    simp only [perform, result, apply, onStates, Procedure.exec_focus,
      Store.exec_inPlace edit.exec_perform, stateAt?, modifyStateAt?, Store.resolve?_eq_placeOf?,
      Store.modifyAt?_eq_placeOf?]
    cases m.states.placeOf? h <;> rfl

end Machine

/-! ## Projects -/

namespace Project

def onMachines {α : Type} (proc : Procedure (Store Machine) α) : Procedure Project α :=
  proc.focus Project.machines fun _ machines => ⟨machines⟩

def addMachineInPlace (identity : Identity) (name : String) : Procedure Project Handle :=
  onMachines (Store.addInPlace (Machine.new identity name))

def renameMachineInPlace (name newName : String) : Procedure Project Unit :=
  onMachines (Store.renameNamedInPlace name newName)

theorem exec_onMachines {α : Type} {proc : Procedure (Store Machine) α} {p : Project}
    {result : Except ModelError (α × Store Machine)}
    (h : proc.exec p.machines = outcome p.machines result) :
    (onMachines proc).exec p = outcome p (result.map fun left => (left.1, ⟨left.2⟩)) :=
  exec_focus_of_outcome h rfl

theorem addMachine_eq_add (p : Project) (identity : Identity) (name : String) :
    p.addMachine identity name =
      (p.machines.add (Machine.new identity name)).map fun left => (left.1, ⟨left.2⟩) := by
  unfold addMachine insertMachine
  cases p.machines.add (Machine.new identity name) <;> rfl

theorem exec_addMachineInPlace (p : Project) (identity : Identity) (name : String) :
    (addMachineInPlace identity name).exec p = outcome p (p.addMachine identity name) := by
  rw [addMachineInPlace, exec_onMachines (Store.exec_addInPlace p.machines _), addMachine_eq_add]

theorem renameMachine_eq_renameNamed (p : Project) (name newName : String) :
    p.renameMachine name newName =
      (p.machines.renameNamed name newName).map fun machines => ⟨machines⟩ := by
  unfold renameMachine Store.renameNamed machineHandle?
  cases p.machines.handleOf? name with
  | none => rfl
  | some h => rfl

theorem exec_renameMachineInPlace (p : Project) (name newName : String) :
    (renameMachineInPlace name newName).exec p =
      outcome p ((p.renameMachine name newName).map fun changed => ((), changed)) := by
  rw [renameMachineInPlace,
    exec_onMachines (Store.exec_renameNamedInPlace p.machines name newName),
    renameMachine_eq_renameNamed]
  cases p.machines.renameNamed name newName <;> rfl

/-- A change of a project, carried out in place. A machine that is added takes an identity. -/
def Edit.perform (next : Identity) : Project.Edit → Procedure Project Unit
  | addMachine name => do
    let _ ← addMachineInPlace next name
  | renameMachine name newName => renameMachineInPlace name newName
  | removeMachine name => modify fun p => ((removeMachine name).apply (p, next)).1
  | editMachine name edit =>
    onMachines (Store.inPlace (Store.placeNamed? name) (pure ()) edit.perform)
  | editMachineAt h edit => onMachines (Store.inPlace (Store.placeOf? h) (pure ()) edit.perform)

def Edit.result (next : Identity) : Project.Edit → Project → Except ModelError Unit
  | addMachine name, p => (p.addMachine next name).map fun _ => ()
  | renameMachine name newName, p => (p.renameMachine name newName).map fun _ => ()
  | removeMachine _, _ => .ok ()
  | editMachine name edit, p => (p.machine? name).elim (.ok ()) edit.result
  | editMachineAt h edit, p => (p.machineAt? h).elim (.ok ()) edit.result

theorem Edit.exec_perform (edit : Project.Edit) (next : Identity) (p : Project) :
    (edit.perform next).exec p = (edit.result next p, (edit.apply (p, next)).1) := by
  cases edit with
  | addMachine name =>
    simp only [perform, result, apply, Procedure.exec_bind, exec_addMachineInPlace]
    cases p.addMachine next name <;> rfl
  | renameMachine name newName =>
    simp only [perform, result, apply, exec_renameMachineInPlace]
    cases p.renameMachine name newName <;> rfl
  | removeMachine name => rfl
  | editMachine name edit =>
    simp only [perform, result, apply, onMachines, Procedure.exec_focus,
      Store.exec_inPlace edit.exec_perform, machine?, modifyMachine?, Store.get?_eq_placeNamed?,
      Store.modify?_eq_placeNamed?]
    cases p.machines.placeNamed? name <;> rfl
  | editMachineAt h edit =>
    simp only [perform, result, apply, onMachines, Procedure.exec_focus,
      Store.exec_inPlace edit.exec_perform, machineAt?, modifyMachineAt?,
      Store.resolve?_eq_placeOf?, Store.modifyAt?_eq_placeOf?]
    cases p.machines.placeOf? h <;> rfl

end Project

end HierarchicalTuring
