/-! # File names and paths

File systems name files by bytes, of which a name may hold any but the slash.

* `bytesOf` and `textOf?` lead from texts to bytes in UTF-8 and back (`textOf?_bytesOf`).
* `machineFile` is the path of the file of a machine below a directory, and `machineOfFile?` the
  machine that a file name belongs to: what stands before the extension `.turr`, if that is not
  empty and is a text.
* `components` splits a path at its slashes.
-/

set_option autoImplicit false

namespace HierarchicalTuring

/-- File names, paths and contents as a file system sees them. -/
abbrev Bytes := List UInt8

/-- A text in UTF-8. -/
def bytesOf (text : String) : Bytes :=
  text.toUTF8.data.toList

/-- The text that bytes are in UTF-8. -/
def textOf? (bytes : Bytes) : Option String :=
  String.fromUTF8? ⟨bytes.toArray⟩

theorem textOf?_bytesOf (text : String) : textOf? (bytesOf text) = some text := by
  have h : (⟨text.toUTF8.data.toList.toArray⟩ : ByteArray) = text.toUTF8 := by simp
  unfold textOf? bytesOf
  rw [h]
  simp [String.fromUTF8?, String.toUTF8, String.fromUTF8, text.isValidUTF8]

/-! ## Machine files -/

/-- The extension of machine files. -/
def machineExtension : String := "turr"

/-- What ends the name of a machine file. -/
def machineEnding : String := "." ++ machineExtension

/-- Whether bytes end with others, and what stands before these. -/
def before? (ending bytes : Bytes) : Option Bytes :=
  let stem := bytes.take (bytes.length - ending.length)
  if stem ++ ending = bytes then some stem else none

/-- The machine that a file belongs to. A name that begins with its last dot has no extension. -/
def machineOfFile? (name : Bytes) : Option String :=
  match before? (bytesOf machineEnding) name with
  | none => none
  | some [] => none
  | some stem => textOf? stem

/-- A path below a directory; an absolute path stands for itself. -/
def joinPath (directory path : String) : String :=
  if path.toList.head? = some '/' then path
  else if directory.toList.getLast?.all (· = '/') then directory ++ path
  else directory ++ "/" ++ path

/-- The path of the file of a machine. -/
def machineFile (directory machine : String) : String :=
  joinPath directory (machine ++ machineEnding)

/-! ## Paths -/

/-- The longest path, in bytes. -/
def maxPathLength : Nat := 4095

/-- The slash between the components of a path. -/
def slash : UInt8 := 47

/-- The components of a path. There is at least one, and any may be empty. -/
def components (path : Bytes) : List Bytes :=
  path.foldr (fun byte parts =>
    if byte = slash then [] :: parts
    else
      match parts with
      | [] => [[byte]]
      | part :: rest => (byte :: part) :: rest) [[]]

end HierarchicalTuring
