import HierarchicalTuring.Document.Reading

/-! # Programs

* `Program` is a project together with the machine to start in and an input to start on.
* `Program.read` reads one from a text, where the description and the input may be left out.
-/

set_option autoImplicit false

namespace HierarchicalTuring

/-- A program as it stands in a text. -/
structure ProgramDocument where
  name : String
  description : String
  machine : String
  input : String
  machines : ProjectDocument

open Json (Tree Fault) in
def ProgramDocument.ofTree (tree : Tree) : Except Fault ProgramDocument := do
  let record ← tree.asRecord ["name", "description", "machine", "input", "machines"]
  let name ← record.required "name" Tree.asText
  let description ← record.optional "description" "" Tree.asText
  let machine ← record.required "machine" Tree.asText
  let input ← record.optional "input" "" Tree.asText
  let machines ← record.required "machines" (ProjectDocument.ofTree 1)
  return ⟨name, description, machine, input, machines⟩

/-- A project ready to run. -/
structure Program where
  name : String
  description : String
  /-- The machine a simulation starts in. -/
  machine : String
  /-- The suggested text on the tape. -/
  input : String
  project : Project

/-- The program that a document describes. -/
def Program.ofDocument (next : Identity) (document : ProgramDocument) :
    Except Error (Program × Identity) := do
  let (project, next) ← Project.build next document.machines
  let ⟨name, description, machine, input, _⟩ := document
  return (⟨name, description, machine, input, project⟩, next)

/-- The program that a text describes. The identities from `next` on are free. -/
def Program.read (next : Identity) (text : String) : Except Error (Program × Identity) :=
  match readDocument ProgramDocument.ofTree text with
  | .ok document => Program.ofDocument next document
  | .error fault => .error (.malformedFile s!"Could not parse program: {fault.message}")

end HierarchicalTuring
