import HierarchicalTuring.Json.Tree

/-! # Layouts of JSON texts

* `compact` writes tokens without blanks.
* `pretty` puts every part of an array or object on a line of its own, indented by two spaces for
  each level, and a space behind a colon; empty arrays and objects stay closed.

Both write the same tokens and differ only in the blanks between them: `gap` is what stands behind a
token.
-/

set_option autoImplicit false

namespace HierarchicalTuring.Json

/-- Tokens without blanks. -/
def compact (tokens : List Token) : List Char :=
  tokens.flatMap Token.text

/-- Whether a token begins an array or object. -/
def Token.opens : Token → Bool
  | .openArray => true
  | .openObject => true
  | _ => false

/-- Whether a token ends an array or object. -/
def Token.closes : Token → Bool
  | .closeArray => true
  | .closeObject => true
  | _ => false

/-- A new line at a level. -/
def newLine (level : Nat) : List Char :=
  '\n' :: List.replicate (2 * level) ' '

/-- The blanks between a token and the next one, at the level behind the token. -/
def gap (level : Nat) (token : Token) (next : Option Token) : List Char :=
  let ends := next.any Token.closes
  if token.opens then (if ends then [] else newLine level)
  else if token = .comma then newLine level
  else if token = .colon then [' ']
  else if ends then newLine (level - 1)
  else []

/-- The level behind a token. -/
def levelAfter (level : Nat) (token : Token) : Nat :=
  if token.opens then level + 1 else if token.closes then level - 1 else level

/-- Tokens on indented lines, beginning at a level. -/
def prettyFrom (level : Nat) : List Token → List Char
  | [] => []
  | token :: rest =>
    let level := levelAfter level token
    token.text ++ gap level token rest.head? ++ prettyFrom level rest

/-- Tokens on indented lines. -/
def pretty (tokens : List Token) : List Char :=
  prettyFrom 0 tokens

/-- The text of a tree without blanks. -/
def Tree.compactText (tree : Tree) : String :=
  String.ofList (compact tree.tokens)

/-- The text of a tree on indented lines. -/
def Tree.prettyText (tree : Tree) : String :=
  String.ofList (pretty tree.tokens)

end HierarchicalTuring.Json
