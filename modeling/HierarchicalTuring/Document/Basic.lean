import HierarchicalTuring.Json.Value
import HierarchicalTuring.State

/-! # Documents

A document describes machines by names alone, as they stand in a file.

* `TransitionDocument`, `StateDocument` and `MachineDocument` describe the parts of a machine, and a
  `ProjectDocument` is a map from machine names to machine documents.
* `ProjectDocument.agrees` compares descriptions, coordinates by their value; equality as a Lean
  term compares them bit by bit.
-/

set_option autoImplicit false

namespace HierarchicalTuring

/-- An edge by the name of its destination, a text of one character to write, and the code of a
direction. -/
structure TransitionDocument where
  destination : String
  input : String
  output : Option String
  move : String
deriving DecidableEq, Repr

/-- A state with its edges. -/
structure StateDocument where
  transitions : List TransitionDocument
  accepting : Bool
  submachine : Option String
  position : Position
deriving DecidableEq, Repr

/-- A machine. The value `submachines` is kept for other uses and means nothing here. -/
structure MachineDocument where
  states : NameMap StateDocument
  submachines : Option Json.Value

/-- A project: its machines by their names. -/
abbrev ProjectDocument := NameMap MachineDocument

/-- Whether two lists agree entry by entry. -/
def entriesAgree {β : Type} (same : β → β → Bool) :
    List (String × β) → List (String × β) → Bool
  | [], [] => true
  | a :: as, b :: bs => a.1 = b.1 && same a.2 b.2 && entriesAgree same as bs
  | _, _ => false

def Position.agrees (a b : Position) : Bool :=
  a.x.agrees b.x && a.y.agrees b.y

def StateDocument.agrees (a b : StateDocument) : Bool :=
  a.transitions = b.transitions && a.accepting = b.accepting && a.submachine = b.submachine &&
    a.position.agrees b.position

def MachineDocument.agrees (a b : MachineDocument) : Bool :=
  entriesAgree StateDocument.agrees a.states.entries b.states.entries &&
    a.submachines.map Json.Value.toTree == b.submachines.map Json.Value.toTree

/-- Whether two projects are described alike. -/
def ProjectDocument.agrees (a b : ProjectDocument) : Bool :=
  entriesAgree MachineDocument.agrees a.entries b.entries

end HierarchicalTuring
