import HierarchicalTuring.Json.Double
import HierarchicalTuring.Json.Tree
import HierarchicalTuring.NameMap

/-! # JSON values

* `Fault`: why a tree does not describe what was asked for.
* `Value` is a tree that was judged: strings are texts, numbers are whole numbers of 64 bits or
  finite doubles, and objects have each key once, in order.
* `Value.ofTree?` judges a tree that may nest arrays and objects to a given depth, and
  `Value.toTree` writes a value.
-/

set_option autoImplicit false

namespace HierarchicalTuring.Json

/-- Why a text or a tree does not describe what was asked for. -/
inductive Fault where
  | notJson
  | tooDeep
  | numberOutOfRange
  | loneSurrogate
  | unexpected (wanted : String)
  | missingField (field : String)
  | repeatedField (field : String)
  | tooManyItems
deriving DecidableEq, Repr

/-- The wording of a fault. -/
def Fault.message : Fault → String
  | .notJson => "the text is not JSON"
  | .tooDeep => "recursion limit exceeded"
  | .numberOutOfRange => "number out of range"
  | .loneSurrogate => "lone surrogate in a string"
  | .unexpected wanted => s!"expected {wanted}"
  | .missingField field => s!"missing field {field}"
  | .repeatedField field => s!"duplicate field {field}"
  | .tooManyItems => "too many items in an array"

/-- How many arrays and objects may be nested in a text. -/
def depthLimit : Nat := 127

/-- A JSON value. -/
inductive Value where
  | null
  | bool (value : Bool)
  | integer (value : Int)
  | float (value : Binary64)
  | string (value : String)
  | array (items : List Value)
  | object (members : List (String × Value))
deriving Repr

/-! ## Doubles -/

/-- The double that a written number stands for. -/
def Numeral.toBinary64 (n : Numeral) : Except Fault Binary64 :=
  match n.toBinary64? with
  | some x => .ok x
  | none => .error .numberOutOfRange

/-- A double as it is written, and null for infinities and NaNs, which have no written form. -/
def treeOfBinary64 (x : Binary64) : Tree :=
  if x.isFinite then .number (.ofBinary64 x) else .null

namespace Value

/-- The number that a written number stands for: a whole number that fits into 64 bits, signed or
unsigned, and otherwise a double. A minus zero is a double as well. -/
def ofNumeral (n : Numeral) : Except Fault Value :=
  let integer : Int := if n.negative then -n.whole else n.whole
  let fits : Bool :=
    if n.negative then 0 < n.whole ∧ n.whole ≤ Nat.pow 2 63 else n.whole < Nat.pow 2 64
  if n.isWhole && fits then .ok (.integer integer) else n.toBinary64.map .float

/-- The text of a string, unless it is no Unicode text. -/
def textOf : Option String → Except Fault String
  | some text => .ok text
  | none => .error .loneSurrogate

mutual

/-- Judges a tree that may nest arrays and objects to a depth. -/
def ofTree (depth : Nat) : Tree → Except Fault Value
  | .null => .ok .null
  | .bool value => .ok (.bool value)
  | .number numeral => ofNumeral numeral
  | .string text => (textOf text).map .string
  | .array items => if depth = 0 then .error .tooDeep else (ofItems (depth - 1) items).map .array
  | .object members =>
    if depth = 0 then .error .tooDeep
    else (ofMembers (depth - 1) members).map fun members => .object (NameMap.ofList members).entries

/-- Judges the items of an array. -/
def ofItems (depth : Nat) : List Tree → Except Fault (List Value)
  | [] => .ok []
  | item :: rest => do
    let item ← ofTree depth item
    let rest ← ofItems depth rest
    return item :: rest

/-- Judges the members of an object. -/
def ofMembers (depth : Nat) : List (Option String × Tree) → Except Fault (List (String × Value))
  | [] => .ok []
  | (key, value) :: rest => do
    let key ← textOf key
    let value ← ofTree depth value
    let rest ← ofMembers depth rest
    return (key, value) :: rest

end

mutual

/-- The tree of a value. -/
def toTree : Value → Tree
  | .null => .null
  | .bool value => .bool value
  | .integer value => .number (.ofInt value)
  | .float value => treeOfBinary64 value
  | .string value => .string (some value)
  | .array items => .array (itemTrees items)
  | .object members => .object (memberTrees members)

/-- The trees of the items of an array. -/
def itemTrees : List Value → List Tree
  | [] => []
  | item :: rest => item.toTree :: itemTrees rest

/-- The trees of the members of an object. -/
def memberTrees : List (String × Value) → List (Option String × Tree)
  | [] => []
  | (key, value) :: rest => (some key, value.toTree) :: memberTrees rest

end

end Value

end HierarchicalTuring.Json
