import HierarchicalTuring.Json.Value

/-! # Reading records out of JSON trees

* `Tree.asText`, `Tree.asBool`, `Tree.asBinary64`, `Tree.asList` and `Tree.asMap` read a tree as one
  kind of thing and never convert between kinds; `Tree.orNull` lets null stand for nothing.
* `Tree.asRecord` reads named fields: an object gives each by its key, once, and an array gives them
  in their order. Keys that are not asked for are skipped with their values, unseen.
* `Record.required` and `Record.optional` take a field out of a record.
-/

set_option autoImplicit false

namespace HierarchicalTuring.Json

namespace Tree

def asText : Tree → Except Fault String
  | .string text => Value.textOf text
  | _ => .error (.unexpected "a string")

def asBool : Tree → Except Fault Bool
  | .bool value => .ok value
  | _ => .error (.unexpected "a boolean")

def asBinary64 : Tree → Except Fault Binary64
  | .number numeral => numeral.toBinary64
  | _ => .error (.unexpected "a number")

def asList {α : Type} (read : Tree → Except Fault α) : Tree → Except Fault (List α)
  | .array items => items.mapM read
  | _ => .error (.unexpected "an array")

/-- A map from the keys of an object. A key may be repeated; its last value stays, but every value
has to be readable. -/
def asMap {α : Type} (read : Tree → Except Fault α) : Tree → Except Fault (NameMap α)
  | .object members => do
    let entries ← members.mapM fun member => do
      let key ← Value.textOf member.1
      let value ← read member.2
      return (key, value)
    return .ofList entries
  | _ => .error (.unexpected "an object")

/-- Reads anything but null, which stands for nothing. -/
def orNull {α : Type} (read : Tree → Except Fault α) : Tree → Except Fault (Option α)
  | .null => .ok none
  | tree => (read tree).map some

end Tree

/-! ## Records -/

/-- The fields that were given, by their names. -/
abbrev Record := List (String × Tree)

namespace Record

/-- The tree that was given for a field. -/
def field? (record : Record) (name : String) : Option Tree :=
  (record.find? fun field => field.1 = name).map Prod.snd

/-- A field that has to be given. -/
def required {α : Type} (record : Record) (name : String) (read : Tree → Except Fault α) :
    Except Fault α :=
  match record.field? name with
  | some tree => read tree
  | none => .error (.missingField name)

/-- A field with a value in its absence. -/
def optional {α : Type} (record : Record) (name : String) (absent : α)
    (read : Tree → Except Fault α) : Except Fault α :=
  match record.field? name with
  | some tree => read tree
  | none => .ok absent

/-- Takes up a member of an object: one of the wanted fields, not given before, or one to skip. -/
def addMember (names : List String) (record : Record) (member : Option String × Tree) :
    Except Fault Record := do
  let key ← Value.textOf member.1
  if key ∈ names then
    if (record.field? key).isSome then .error (.repeatedField key)
    else return record ++ [(key, member.2)]
  else return record

end Record

/-- The given ones of the named fields. -/
def Tree.asRecord (names : List String) : Tree → Except Fault Record
  | .object members => members.foldlM (Record.addMember names) []
  | .array items =>
    if names.length < items.length then .error .tooManyItems else .ok (names.zip items)
  | _ => .error (.unexpected "an object")

end HierarchicalTuring.Json
