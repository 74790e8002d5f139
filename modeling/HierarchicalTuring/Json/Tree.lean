import HierarchicalTuring.Json.Token

/-! # JSON trees

* `Tree` is a JSON text without its blanks: nothing is judged yet, so an object may repeat a key,
  a numeral may be beyond every range, and a string may be no Unicode text.
* `Tree.tokens` writes a tree as tokens, and `Tree.ofTokens?` reads one. The reader keeps the open
  arrays and objects on a stack, so that nesting of any depth is read token by token.
* `Tree.read?` is the tree of a text.
-/

set_option autoImplicit false

namespace HierarchicalTuring.Json

/-- The structure of a JSON text. -/
inductive Tree where
  | null
  | bool (value : Bool)
  | number (numeral : Numeral)
  | string (text : Option String)
  | array (items : List Tree)
  | object (members : List (Option String × Tree))
deriving Repr, BEq

namespace Tree

/-! ## Writing -/

/-- Lists of tokens with a comma between each two. -/
def separated : List (List Token) → List Token
  | [] => []
  | [tokens] => tokens
  | tokens :: rest => tokens ++ .comma :: separated rest

mutual

/-- The tokens of a tree. -/
def tokens : Tree → List Token
  | .null => [.null]
  | .bool value => [.bool value]
  | .number numeral => [.number numeral]
  | .string text => [.string text]
  | .array items => .openArray :: separated (itemTokens items) ++ [.closeArray]
  | .object members => .openObject :: separated (memberTokens members) ++ [.closeObject]

/-- The tokens of each item of an array. -/
def itemTokens : List Tree → List (List Token)
  | [] => []
  | item :: rest => item.tokens :: itemTokens rest

/-- The tokens of each member of an object. -/
def memberTokens : List (Option String × Tree) → List (List Token)
  | [] => []
  | (key, value) :: rest => (.string key :: .colon :: value.tokens) :: memberTokens rest

end

/-! ## Reading -/

/-- An array or object whose end is still to come, its parts in reverse. -/
inductive Enclosing where
  | array (items : List Tree)
  | object (members : List (Option String × Tree))
  /-- An object in the middle of a member. -/
  | member (members : List (Option String × Tree)) (key : Option String)
deriving Repr

/-- What may come next. -/
inductive Expected where
  | value
  | itemOrEnd
  | keyOrEnd
  | key
  | colon
  | commaOrEnd
  /-- The whole tree is read. -/
  | nothing (tree : Tree)
deriving Repr

/-- A tree in the course of being read: what encloses the next token, the innermost first. -/
structure Reader where
  enclosing : List Enclosing
  expected : Expected
deriving Repr

namespace Reader

/-- Nothing is read yet. -/
def start : Reader :=
  ⟨[], .value⟩

/-- A value is complete and goes into what encloses it. -/
def complete (enclosing : List Enclosing) (value : Tree) : Option Reader :=
  match enclosing with
  | [] => some ⟨[], .nothing value⟩
  | .array items :: outer => some ⟨.array (value :: items) :: outer, .commaOrEnd⟩
  | .member members key :: outer => some ⟨.object ((key, value) :: members) :: outer, .commaOrEnd⟩
  | .object _ :: _ => none

/-- Reads a token where a value is expected. -/
def onValue (enclosing : List Enclosing) : Token → Option Reader
  | .null => complete enclosing .null
  | .bool value => complete enclosing (.bool value)
  | .number numeral => complete enclosing (.number numeral)
  | .string text => complete enclosing (.string text)
  | .openArray => some ⟨.array [] :: enclosing, .itemOrEnd⟩
  | .openObject => some ⟨.object [] :: enclosing, .keyOrEnd⟩
  | _ => none

/-- Reads a token where an array or object may end. -/
def onEnd : List Enclosing → Token → Option Reader
  | .array items :: outer, .closeArray => complete outer (.array items.reverse)
  | .object members :: outer, .closeObject => complete outer (.object members.reverse)
  | _, _ => none

/-- Reads a token where a key is expected. -/
def onKey : List Enclosing → Token → Option Reader
  | .object members :: outer, .string key => some ⟨.member members key :: outer, .colon⟩
  | _, _ => none

/-- Reads a token between two parts of an array or object. -/
def onComma : List Enclosing → Option Reader
  | .array items :: outer => some ⟨.array items :: outer, .value⟩
  | .object members :: outer => some ⟨.object members :: outer, .key⟩
  | _ => none

/-- Reads one token. -/
def next (r : Reader) (token : Token) : Option Reader :=
  match r.expected with
  | .value => onValue r.enclosing token
  | .itemOrEnd => if token = .closeArray then onEnd r.enclosing token else onValue r.enclosing token
  | .keyOrEnd => if token = .closeObject then onEnd r.enclosing token else onKey r.enclosing token
  | .key => onKey r.enclosing token
  | .colon => if token = .colon then some ⟨r.enclosing, .value⟩ else none
  | .commaOrEnd => if token = .comma then onComma r.enclosing else onEnd r.enclosing token
  | .nothing _ => none

/-- Reads all tokens; the tree has to be complete at their end. -/
def run (r : Reader) : List Token → Option Tree
  | [] =>
    match r.expected with
    | .nothing tree => some tree
    | _ => none
  | token :: rest =>
    match r.next token with
    | none => none
    | some r => r.run rest

end Reader

/-- The tree that tokens write. -/
def ofTokens? (tokens : List Token) : Option Tree :=
  Reader.start.run tokens

/-- The tree of a JSON text. -/
def read? (text : String) : Option Tree :=
  (scan? text.toList).bind ofTokens?

end Tree

end HierarchicalTuring.Json
