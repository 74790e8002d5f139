import HierarchicalTuring.Files.Directory

/-! # File trees

* `FileTree` is a finite map from locations to entries; a location is the list of names that lead to
  it from the root, which is a directory.
* `FileTree.locate` follows a path. Empty components and single dots stay where they are, double
  dots go back, and every component has to be followed from a directory. A path that is too long is
  not followed at all.
* `FileTree.openDirectory`, `FileTree.writeFile` and `FileTree.makeDirectory` are what programs ask
  of a file system.
-/

set_option autoImplicit false

namespace HierarchicalTuring

/-- The names that lead to an entry. -/
abbrev Location := List Bytes

/-- Files and directories below a root. -/
structure FileTree where
  entries : List (Location × Entry)
deriving Repr

namespace FileTree

/-- Only the root. -/
def empty : FileTree :=
  ⟨[]⟩

/-- What stands at a location. -/
def find? (tree : FileTree) (location : Location) : Option Entry :=
  if location = [] then some .directory
  else (tree.entries.find? fun entry => entry.1 = location).map Prod.snd

/-- The tree with an entry at a location, whatever stood there. -/
def put (tree : FileTree) (location : Location) (entry : Entry) : FileTree :=
  ⟨(tree.entries.filter fun other => other.1 ≠ location) ++ [(location, entry)]⟩

/-- Requires a directory at a location. -/
def requireDirectory (tree : FileTree) (location : Location) : Except Refusal Unit :=
  match tree.find? location with
  | some .directory => .ok ()
  | some (.file _) => .error .notADirectory
  | none => .error .notFound

/-- The longest name, in bytes. -/
def maxNameLength : Nat := 255

/-- Follows a component of a path. -/
def follow (tree : FileTree) (location : Location) (component : Bytes) :
    Except Refusal Location := do
  tree.requireDirectory location
  if component = [] ∨ component = bytesOf "." then return location
  else if component = bytesOf ".." then return location.dropLast
  else if component.contains 0 then throw .nameWithNul
  else if maxNameLength < component.length then throw .nameTooLong
  else return location ++ [component]

/-- The location that a path leads to. Nothing has to stand there, but there has to be a directory
before it. -/
def locate (tree : FileTree) (path : Bytes) : Except Refusal Location :=
  if maxPathLength < path.length then .error .nameTooLong
  else (components path).foldlM tree.follow []

/-- The name of an entry that stands directly in a directory. -/
def nameIn? (location : Location) (entry : Location × Entry) : Option (Bytes × Entry) :=
  match entry.1.getLast? with
  | some name => if entry.1.dropLast = location then some (name, entry.2) else none
  | none => none

/-- The directory at a path, its entries in the order of their names. -/
def openDirectory (tree : FileTree) (path : Bytes) : Except Refusal Directory := do
  let location ← tree.locate path
  tree.requireDirectory location
  return ⟨(tree.entries.filterMap (nameIn? location)).mergeSort fun a b => (compare a.1 b.1).isLE⟩

/-- Writes a file, in place of a file that is already there. -/
def writeFile (tree : FileTree) (path content : Bytes) : Except Refusal FileTree := do
  let location ← tree.locate path
  if tree.find? location = some .directory then throw .isADirectory
  else return tree.put location (.file content)

/-- Makes a directory. -/
def makeDirectory (tree : FileTree) (path : Bytes) : Except Refusal FileTree := do
  let location ← tree.locate path
  return tree.put location .directory

end FileTree

end HierarchicalTuring
