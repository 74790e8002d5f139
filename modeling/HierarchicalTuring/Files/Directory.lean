import HierarchicalTuring.Files.Name

/-! # Directories

* `Entry`: what stands under a name, a file with its content or a directory.
* `Directory` is a finite map from file names to entries.
* `Directory.machineNames` lists the machines that have a file in a directory, in the order of their
  names; `Directory.readText` gives the text of a file.
* `Refusal`: why a file system does not do what it is asked for.
-/

set_option autoImplicit false

namespace HierarchicalTuring

/-- Why a file or directory cannot be read or written. -/
inductive Refusal where
  | notFound
  | notADirectory
  | isADirectory
  | nameTooLong
  | nameWithNul
  | notUtf8
deriving DecidableEq, Repr

/-- The wording of a refusal. -/
def Refusal.message : Refusal → String
  | .notFound => "No such file or directory"
  | .notADirectory => "Not a directory"
  | .isADirectory => "Is a directory"
  | .nameTooLong => "File name too long"
  | .nameWithNul => "file name contained an unexpected NUL byte"
  | .notUtf8 => "stream did not contain valid UTF-8"

/-- What stands under a name. -/
inductive Entry where
  | file (content : Bytes)
  | directory
deriving DecidableEq, Repr

/-- The entries of a directory. -/
structure Directory where
  entries : List (Bytes × Entry)
deriving Repr

namespace Directory

/-- The entry with a name. -/
def find? (d : Directory) (name : Bytes) : Option Entry :=
  (d.entries.find? fun entry => entry.1 = name).map Prod.snd

/-- The machine that an entry belongs to; a directory belongs to none. -/
def machineOfEntry? (entry : Bytes × Entry) : Option String :=
  match entry.2 with
  | .directory => none
  | .file _ => machineOfFile? entry.1

/-- The machines that have a file in the directory, in the order of their names. -/
def machineNames (d : Directory) : List String :=
  (d.entries.filterMap machineOfEntry?).mergeSort fun a b => decide (a ≤ b)

/-- The text of the file with a name. -/
def readText (d : Directory) (name : String) : Except Refusal String :=
  match d.find? (bytesOf name) with
  | none => .error .notFound
  | some .directory => .error .isADirectory
  | some (.file content) =>
    match textOf? content with
    | some text => .ok text
    | none => .error .notUtf8

end Directory

end HierarchicalTuring
