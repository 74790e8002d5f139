import HierarchicalTuring.Document.Basic
import HierarchicalTuring.Project

/-! # Projects from documents, and back

* `Machine.ofDocument` adds all states of a document before any transition, so that a transition may
  lead to any state of its machine. `MachineFault` says what can be wrong with a document.
* `Project.ofDocuments` builds the machines in the order of their names.
* `Machine.toDocument` and `Project.toDocuments` describe what is there; a transition whose
  destination does not resolve has no description and is left out.
-/

set_option autoImplicit false

namespace HierarchicalTuring

/-- Why a machine document describes no machine. -/
inductive MachineFault where
  | refusedState (error : ModelError)
  | unknownDestination (state destination : String)
  | outputNotSingle (state output : String)
  | unknownMove (state move : String)
  | refusedTransition (state : String) (error : ModelError)
deriving DecidableEq, Repr

/-- The wording of a fault in a machine document. -/
def MachineFault.message : MachineFault → String
  | .refusedState error => error.message
  | .unknownDestination state destination =>
    s!"Transition from {state} leads to unknown state {destination}"
  | .outputNotSingle state output =>
    "Output character " ++ Text.quotedText output ++
      s!" of a transition from {state} is not a single character"
  | .unknownMove state move =>
    "Unknown move " ++ Text.quotedText move ++ s!" in a transition from {state}"
  | .refusedTransition state error => s!"State {state}: {error.message}"

/-- Why a map of documents describes no project. -/
inductive ProjectFault where
  | refusedMachine (error : ModelError)
  | inMachine (machine : String) (fault : MachineFault)
deriving DecidableEq, Repr

/-- The wording of a fault in a map of documents. -/
def ProjectFault.message : ProjectFault → String
  | .refusedMachine error => error.message
  | .inMachine machine fault => s!"Machine {machine}: {fault.message}"

/-- The report of a fault in a map of documents. -/
def ProjectFault.toError (fault : ProjectFault) : Error :=
  .malformedFile fault.message

/-! ## Building -/

/-- The character that a text consists of. -/
def singleChar? (text : String) : Option Char :=
  match text.toList with
  | [c] => some c
  | _ => none

/-- The described state without its transitions. -/
def StateDocument.toState (name : String) (s : StateDocument) : State :=
  { State.new name with
    accepting := s.accepting
    submachine := s.submachine
    position := s.position }

/-- The character a transition writes, if it writes one. -/
def TransitionDocument.writes (t : TransitionDocument) (state : String) :
    Except MachineFault (Option Char) :=
  match t.output with
  | none => .ok none
  | some output =>
    match singleChar? output with
    | some c => .ok (some c)
    | none => .error (.outputNotSingle state output)

/-- The described transition from a state of a machine. -/
def TransitionDocument.toTransition (t : TransitionDocument) (m : Machine) (state : String) :
    Except MachineFault Transition :=
  match m.stateHandle? t.destination with
  | none => .error (.unknownDestination state t.destination)
  | some h => do
    let output ← t.writes state
    match Direction.ofCode? t.move with
    | none => .error (.unknownMove state t.move)
    | some direction => return .make h t.input output direction

namespace Machine

/-- Adds the described transition to a state. -/
def addDescribed (m : Machine) (state : String) (t : TransitionDocument) :
    Except MachineFault Machine := do
  let transition ← t.toTransition m state
  match m.state? state with
  | none => .error (.refusedState (.notFound state))
  | some source =>
    match source.addTransition transition with
    | .error e => .error (.refusedTransition state e)
    | .ok (_, changed) => return (m.modifyState? state fun _ => changed).getD m

/-- Adds the described states, without their transitions. -/
def addStates (m : Machine) (states : List (String × StateDocument)) :
    Except MachineFault Machine :=
  states.foldlM (fun m entry =>
    match m.insertState (entry.2.toState entry.1) with
    | .error e => .error (.refusedState e)
    | .ok (_, m) => .ok m) m

/-- Adds the described transitions of every state. -/
def addTransitions (m : Machine) (states : List (String × StateDocument)) :
    Except MachineFault Machine :=
  states.foldlM (fun m entry =>
    entry.2.transitions.foldlM (fun m t => m.addDescribed entry.1 t) m) m

/-- The described machine. -/
def ofDocument (identity : Identity) (name : String) (document : MachineDocument) :
    Except MachineFault Machine := do
  let m ← (Machine.new identity name).addStates document.states.entries
  m.addTransitions document.states.entries

/-! ## Describing -/

/-- The description of a transition, if its destination is a state of the machine. -/
def describe? (m : Machine) (t : Transition) : Option TransitionDocument := do
  let destination ← m.stateAt? t.destination
  return {
    destination := destination.name
    input := String.ofList t.input
    output := t.output.map String.singleton
    move := String.singleton t.direction.code }

/-- The description of a state of the machine. -/
def describeState (m : Machine) (s : State) : StateDocument where
  transitions := s.transitions.filterMap fun stored => m.describe? stored.2
  accepting := s.accepting
  submachine := s.submachine
  position := s.position

/-- The description of the machine. -/
def toDocument (m : Machine) : MachineDocument where
  states := .ofList (m.states.live.map fun s => (s.name, m.describeState s))
  submachines := none

end Machine

namespace Project

/-- Adds the machine that a document describes; `next` is the next free identity. -/
def addDescribed (built : Project × Identity) (entry : String × MachineDocument) :
    Except ProjectFault (Project × Identity) :=
  let (p, next) := built
  match Machine.ofDocument next entry.1 entry.2 with
  | .error fault => .error (.inMachine entry.1 fault)
  | .ok machine =>
    match p.insertMachine machine with
    | .error e => .error (.refusedMachine e)
    | .ok (_, p) => .ok (p, next + 1)

/-- The described project. The identities from `next` on are free; the first free one after the
project is built comes with it. -/
def ofDocuments (next : Identity) (documents : ProjectDocument) :
    Except ProjectFault (Project × Identity) :=
  documents.entries.foldlM addDescribed (Project.new next, next + 1)

/-- The description of the project. -/
def toDocuments (p : Project) : ProjectDocument :=
  .ofList (p.machines.live.map fun m => (m.name, m.toDocument))

end Project

end HierarchicalTuring
