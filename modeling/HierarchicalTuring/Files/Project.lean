import HierarchicalTuring.Document.Reading
import HierarchicalTuring.Files.Tree

/-! # Projects in directories

A directory holds a project as one file for each machine.

* `machineNamesIn` and `Project.load` read a directory. The files are read in the order of the
  machines' names, and the first fault is reported.
* `FileTree.save` writes a project file by file, in the same order, and stops at the first refusal;
  what was written before stays.
-/

set_option autoImplicit false

namespace HierarchicalTuring

/-- A directory as it was opened at a path, or why it could not be. -/
abbrev Opened := Except Refusal Directory

/-- The machines that have a file in a directory. -/
def machineNamesIn (path : String) (opened : Opened) : Except Error (List String) :=
  match opened with
  | .ok directory => .ok directory.machineNames
  | .error refusal =>
    .error (.fileError s!"Could not open project directory {path}: {refusal.message}")

/-- The text of the file of a machine, in a directory at a path. -/
def Directory.readMachineFile (d : Directory) (path machine : String) : Except Refusal String :=
  if maxPathLength < (bytesOf (machineFile path machine)).length then .error .nameTooLong
  else d.readText (machine ++ machineEnding)

/-- The document in the file of a machine. -/
def Directory.loadDocument (d : Directory) (path machine : String) :
    Except Error (String × MachineDocument) :=
  let file := machineFile path machine
  match d.readMachineFile path machine with
  | .error refusal => .error (.fileError s!"Could not read machine file {file}: {refusal.message}")
  | .ok text =>
    match MachineDocument.read text with
    | .error fault =>
      .error (.malformedFile s!"Could not parse machine file {file}: {fault.message}")
    | .ok document => .ok (machine, document)

/-- The documents in a directory. -/
def Directory.loadDocuments (d : Directory) (path : String) : Except Error ProjectDocument := do
  let documents ← d.machineNames.mapM (d.loadDocument path)
  return .ofList documents

/-- The project in a directory. The identities from `next` on are free. -/
def Project.load (next : Identity) (path : String) (opened : Opened) :
    Except Error (Project × Identity) :=
  match opened with
  | .ok directory => do Project.build next (← directory.loadDocuments path)
  | .error refusal =>
    .error (.fileError s!"Could not open project directory {path}: {refusal.message}")

namespace FileTree

/-- Writes the file of a machine. -/
def saveDocument (tree : FileTree) (path machine : String) (document : MachineDocument) :
    Except Error FileTree :=
  let file := machineFile path machine
  match tree.writeFile (bytesOf file) (bytesOf document.toTree.prettyText) with
  | .ok tree => .ok tree
  | .error refusal =>
    .error (.fileError s!"Could not write machine file {file}: {refusal.message}")

/-- Writes the files of machines, up to the first refusal. -/
def saveDocuments (tree : FileTree) (path : String) :
    List (String × MachineDocument) → Except Error Unit × FileTree
  | [] => (.ok (), tree)
  | (machine, document) :: rest =>
    match tree.saveDocument path machine document with
    | .ok tree => tree.saveDocuments path rest
    | .error e => (.error e, tree)

/-- Writes a project into the directory at a path. -/
def save (tree : FileTree) (path : String) (p : Project) : Except Error Unit × FileTree :=
  tree.saveDocuments path p.toDocuments.entries

end FileTree

end HierarchicalTuring
