import HierarchicalTuring.Document.Basic
import HierarchicalTuring.Json.Decode
import HierarchicalTuring.Json.Layout

/-! # Documents as JSON

* `MachineDocument.toTree` writes a document, its fields in a fixed order and every field present.
* `MachineDocument.ofTree` reads one. The called machine, the written character and the kept value
  may be left out or null; every other field has to be there.
* `MachineDocument.read` and `ProjectDocument.read` read texts.
-/

set_option autoImplicit false

namespace HierarchicalTuring

open Json (Tree Fault Record)

/-! ## Writing -/

/-- The tree of a text that may be missing. -/
def treeOfText? (text : Option String) : Tree :=
  match text with
  | some text => .string (some text)
  | none => .null

/-- The tree of a map, its keys in order. -/
def treeOfMap {β : Type} (toTree : β → Tree) (m : NameMap β) : Tree :=
  .object (m.entries.map fun entry => (some entry.1, toTree entry.2))

def TransitionDocument.toTree (t : TransitionDocument) : Tree :=
  .object [
    (some "destination", .string (some t.destination)),
    (some "inchar", .string (some t.input)),
    (some "outchar", treeOfText? t.output),
    (some "move", .string (some t.move))]

def StateDocument.toTree (s : StateDocument) : Tree :=
  .object [
    (some "transitions", .array (s.transitions.map TransitionDocument.toTree)),
    (some "accepting", .bool s.accepting),
    (some "submachine", treeOfText? s.submachine),
    (some "x", Json.treeOfBinary64 s.position.x),
    (some "y", Json.treeOfBinary64 s.position.y)]

def MachineDocument.toTree (m : MachineDocument) : Tree :=
  .object [
    (some "states", treeOfMap StateDocument.toTree m.states),
    (some "submachines", (m.submachines.map Json.Value.toTree).getD .null)]

/-! ## Reading -/

def TransitionDocument.ofTree (tree : Tree) : Except Fault TransitionDocument := do
  let record ← tree.asRecord ["destination", "inchar", "outchar", "move"]
  let destination ← record.required "destination" Tree.asText
  let input ← record.required "inchar" Tree.asText
  let output ← record.optional "outchar" none (Tree.orNull Tree.asText)
  let move ← record.required "move" Tree.asText
  return ⟨destination, input, output, move⟩

def StateDocument.ofTree (tree : Tree) : Except Fault StateDocument := do
  let record ← tree.asRecord ["transitions", "accepting", "submachine", "x", "y"]
  let transitions ← record.required "transitions" (Tree.asList TransitionDocument.ofTree)
  let accepting ← record.required "accepting" Tree.asBool
  let submachine ← record.optional "submachine" none (Tree.orNull Tree.asText)
  let x ← record.required "x" Tree.asBinary64
  let y ← record.required "y" Tree.asBinary64
  return ⟨transitions, accepting, submachine, ⟨x, y⟩⟩

/-- Reads a machine document that stands `outer` arrays and objects deep in a text. -/
def MachineDocument.ofTree (outer : Nat) (tree : Tree) : Except Fault MachineDocument := do
  let record ← tree.asRecord ["states", "submachines"]
  let states ← record.required "states" (Tree.asMap StateDocument.ofTree)
  let submachines ← record.optional "submachines" none
    (Tree.orNull (Json.Value.ofTree (Json.depthLimit - outer - 1)))
  return ⟨states, submachines⟩

/-- Reads a map of machine documents that stands `outer` arrays and objects deep in a text. -/
def ProjectDocument.ofTree (outer : Nat) (tree : Tree) : Except Fault ProjectDocument :=
  tree.asMap (MachineDocument.ofTree (outer + 1))

/-- Reads a text as one kind of document. -/
def readDocument {α : Type} (ofTree : Tree → Except Fault α) (text : String) : Except Fault α :=
  match Tree.read? text with
  | some tree => ofTree tree
  | none => .error .notJson

/-- The machine document of a text. -/
def MachineDocument.read (text : String) : Except Fault MachineDocument :=
  readDocument (MachineDocument.ofTree 0) text

/-- The project document of a text. -/
def ProjectDocument.read (text : String) : Except Fault ProjectDocument :=
  readDocument (ProjectDocument.ofTree 0) text

end HierarchicalTuring
