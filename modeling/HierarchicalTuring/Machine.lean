import HierarchicalTuring.State

/-! # Machines

* A `Machine` is a store of states under a name. Its run begins in the state named `start`.
* `Machine.addTransition` names both ends of an edge; a missing destination is reported before a
  missing source.
* `Machine.removeState?` also removes the edges into the removed state from the states that stay.
-/

set_option autoImplicit false

namespace HierarchicalTuring

/-- Every machine is entered at the state with this name. -/
def startStateName : String := "start"

/-- A machine: its name and its states. -/
structure Machine where
  name : String
  states : Store State
deriving Repr

namespace Machine

/-- A machine without states, whose store of states has a given identity. -/
def new (identity : Identity) (name : String) : Machine :=
  ⟨name, .empty identity⟩

instance : Named Machine where
  name := Machine.name
  withName machine name := { machine with name }
  name_withName _ _ := rfl

/-! ## Looking up states -/

def state? (m : Machine) (name : String) : Option State :=
  m.states.get? name

def stateHandle? (m : Machine) (name : String) : Option Handle :=
  m.states.handleOf? name

def stateAt? (m : Machine) (h : Handle) : Option State :=
  m.states.resolve? h

/-- The state in which the machine begins, with its handle. -/
def start? (m : Machine) : Option (Handle × State) := do
  let h ← m.stateHandle? startStateName
  let state ← m.stateAt? h
  return (h, state)

def stateNames (m : Machine) : List String :=
  m.states.names

def stateCount (m : Machine) : Nat :=
  m.states.size

/-! ## Editing -/

/-- Adds a state under its name. -/
def insertState (m : Machine) (state : State) : Except ModelError (Handle × Machine) := do
  let (h, states) ← m.states.add state
  return (h, { m with states })

/-- Adds a state without transitions. -/
def addState (m : Machine) (name : String) : Except ModelError (Handle × Machine) :=
  m.insertState (State.new name)

/-- Changes the state with a name. The change has to keep the name. -/
def modifyState? (m : Machine) (name : String) (change : State → State) : Option Machine := do
  let states ← m.states.modify? name change
  return { m with states }

/-- Changes the state behind a handle. The change has to keep the name. -/
def modifyStateAt? (m : Machine) (h : Handle) (change : State → State) : Option Machine := do
  let states ← m.states.modifyAt? h change
  return { m with states }

def renameState (m : Machine) (name newName : String) : Except ModelError Machine :=
  match m.stateHandle? name with
  | none => .error (.notFound name)
  | some h => do
    let states ← m.states.rename h newName
    return { m with states }

/-- Takes a state out of the machine together with all edges into it. The removed state is given
with its own edges as they were. -/
def removeState? (m : Machine) (name : String) : Option (State × Machine) := do
  let (h, state, states) ← m.states.remove? name
  return (state, { m with states := states.mapEntities (State.removeTransitionsTo · h) })

/-- Adds an edge between two states given by their names. -/
def addTransition (m : Machine) (source destination input : String) (output : Option Char)
    (direction : Direction) : Except ModelError (TransitionId × Machine) :=
  match m.stateHandle? destination with
  | none => .error (.notFound destination)
  | some h =>
    match m.state? source with
    | none => .error (.notFound source)
    | some state => do
      let (id, changed) ← state.addTransition (.make h input output direction)
      return (id, (m.modifyState? source fun _ => changed).getD m)

end Machine

end HierarchicalTuring
