import HierarchicalTuring.Text.Quoted

/-! # Errors and their messages

* `ModelError`: an edit of a project was refused, and the project is as it was.
* `SimulationError`: a project cannot be simulated further.
* `Error`: everything a front end can report. Edits and simulations keep their own messages
  (`message_model`, `message_simulation`); the other three kinds put their name before a detail.

Each type has one function `message`, the only place where its wording is written.
-/

set_option autoImplicit false

namespace HierarchicalTuring

/-- Why an edit was refused. -/
inductive ModelError where
  /-- The name is already claimed within its container. -/
  | nameInUse (name : String)
  /-- Another transition of the state already reads the character. -/
  | inputInUse (character : Char)
  /-- A transition has to read at least one character. -/
  | emptyInput
  /-- Nothing in the container has the name. -/
  | notFound (name : String)
deriving DecidableEq, Repr

/-- The wording of a refused edit. -/
def ModelError.message : ModelError → String
  | .nameInUse name => s!"Name already in use: {name}"
  | .inputInUse character =>
    "State already has a transition for character " ++ Text.quotedChar character
  | .emptyInput => "Transition has no input characters"
  | .notFound name => s!"Not found: {name}"

/-- Why a project cannot be simulated further. -/
inductive SimulationError where
  /-- The machine to start in does not exist. -/
  | machineNotFound (machine : String)
  /-- A state calls a machine that the project does not have. -/
  | submachineNotFound (submachine state machine : String)
  /-- A machine that has to be entered has no start state. -/
  | startStateNotFound (machine : String)
  /-- Calls were chained deeper than the number of machines in the project. -/
  | infiniteSubmachineLoop (machine : String) (depth : Nat)
  /-- A transition points at a state that its machine does not own. -/
  | danglingDestination (state machine : String)
deriving DecidableEq, Repr

/-- The wording of a failed simulation. -/
def SimulationError.message : SimulationError → String
  | .machineNotFound machine => s!"Machine not found: {machine}"
  | .submachineNotFound submachine state machine =>
    s!"Submachine {submachine} called from state {state} of machine {machine} not found"
  | .startStateNotFound machine => s!"Start state not found in machine {machine}"
  | .infiniteSubmachineLoop machine depth =>
    s!"Infinite submachine loop entering machine {machine} (depth {depth})"
  | .danglingDestination state machine =>
    s!"Transition from state {state} of machine {machine} leads to an unknown state"

/-- What a front end reports. -/
inductive Error where
  | model (error : ModelError)
  | simulation (error : SimulationError)
  /-- A document is not well formed. -/
  | malformedFile (detail : String)
  /-- A file or directory could not be read or written. -/
  | fileError (detail : String)
  /-- A project or a request fails a check. -/
  | validation (detail : String)
deriving DecidableEq, Repr

/-- The wording of a reported error. -/
def Error.message : Error → String
  | .model error => error.message
  | .simulation error => error.message
  | .malformedFile detail => s!"Malformed file: {detail}"
  | .fileError detail => s!"File error: {detail}"
  | .validation detail => s!"Validation error: {detail}"

instance : Coe ModelError Error := ⟨.model⟩

instance : Coe SimulationError Error := ⟨.simulation⟩

@[simp] theorem Error.message_model (e : ModelError) : (Error.model e).message = e.message := rfl

@[simp] theorem Error.message_simulation (e : SimulationError) :
    (Error.simulation e).message = e.message := rfl

end HierarchicalTuring
