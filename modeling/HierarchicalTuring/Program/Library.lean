import HierarchicalTuring.Program.Basic
import HierarchicalTuring.Program.BuiltIn

/-! # The library of built-in programs

* `Library` is the list of the programs that could be read, and `Library.builtIn` the one that comes
  with this package.
* Programs are found by their place, or by their name without regard to the case of the letters a to
  z.
-/

set_option autoImplicit false

namespace HierarchicalTuring

/-- A text with the letters A to Z in lower case. -/
def lowerCase (text : String) : List Char :=
  text.toList.map Char.toLower

/-- Programs to choose from. -/
abbrev Library := List Program

namespace Library

/-- The programs of those texts that can be read. The identities from `next` on are free. -/
def read (next : Identity) : List String → Library
  | [] => []
  | text :: rest =>
    match Program.read next text with
    | .ok (program, next) => program :: read next rest
    | .error _ => read next rest

/-- The built-in programs. The identities from `next` on are free. -/
def builtIn (next : Identity) : Library :=
  read next builtInTexts

def names (library : Library) : List String :=
  library.map Program.name

/-- The program at a place. -/
def atIndex (library : Library) (index : Nat) : Except Error Program :=
  match library[index]? with
  | some program => .ok program
  | none => .error (.validation s!"Program index {index} out of range")

/-- The first program with a name, without regard to case. -/
def named (library : Library) (name : String) : Except Error Program :=
  match library.find? fun program => lowerCase program.name = lowerCase name with
  | some program => .ok program
  | none => .error (.validation ("Program '" ++ name ++ "' not found"))

end Library

end HierarchicalTuring
