import HierarchicalTuring.Document.Json
import HierarchicalTuring.Document.Project

/-! # Projects from texts

* `Project.build` turns documents into a project, and `Project.read` a text that maps machine names
  to machine documents.
-/

set_option autoImplicit false

namespace HierarchicalTuring

/-- Builds the described project and reports a fault. -/
def Project.build (next : Identity) (documents : ProjectDocument) :
    Except Error (Project × Identity) :=
  (Project.ofDocuments next documents).mapError ProjectFault.toError

/-- The project that a text describes. The identities from `next` on are free. -/
def Project.read (next : Identity) (text : String) : Except Error (Project × Identity) :=
  match ProjectDocument.read text with
  | .ok documents => Project.build next documents
  | .error fault => .error (.malformedFile s!"Could not parse project: {fault.message}")

end HierarchicalTuring
