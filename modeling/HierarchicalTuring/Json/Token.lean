import HierarchicalTuring.Json.Numeral

/-! # JSON tokens

* `Token`: the punctuation, literals, numerals and strings of a JSON text. A string whose escapes
  hold a surrogate without its partner is no Unicode text; it is a token all the same, since such a
  string may stand in a part that is skipped.
* `scan?` splits a text into its tokens; blanks between them are dropped.
* `Token.text` writes a token, and scanning it gives the token again.
-/

set_option autoImplicit false

namespace HierarchicalTuring.Json

/-- A smallest meaningful part of a JSON text. -/
inductive Token where
  | openArray
  | closeArray
  | openObject
  | closeObject
  | comma
  | colon
  | null
  | bool (value : Bool)
  | number (numeral : Numeral)
  /-- The text of a string, none if it is not made of Unicode characters. -/
  | string (text : Option String)
deriving DecidableEq, Repr

/-! ## Strings -/

/-- The character of a short escape. -/
def shortEscape? : Char → Option Char
  | '\x22' => some '\x22'
  | '\\' => some '\\'
  | '/' => some '/'
  | 'b' => some '\x08'
  | 'f' => some '\x0c'
  | 'n' => some '\n'
  | 'r' => some '\r'
  | 't' => some '\t'
  | _ => none

/-- The value of a hexadecimal digit. -/
def hexDigit? (c : Char) : Option Nat :=
  if '0' ≤ c ∧ c ≤ '9' then some (c.toNat - '0'.toNat)
  else if 'a' ≤ c ∧ c ≤ 'f' then some (c.toNat - 'a'.toNat + 10)
  else if 'A' ≤ c ∧ c ≤ 'F' then some (c.toNat - 'A'.toNat + 10)
  else none

/-- The first half of a character beyond the 16-bit range. -/
def isLeading (unit : Nat) : Bool :=
  0xD800 ≤ unit && unit ≤ 0xDBFF

/-- The second half of a character beyond the 16-bit range. -/
def isTrailing (unit : Nat) : Bool :=
  0xDC00 ≤ unit && unit ≤ 0xDFFF

/-- The character that two halves make. -/
def joined (leading trailing : Nat) : Char :=
  Char.ofNat (0x10000 + (leading - 0xD800) * 0x400 + (trailing - 0xDC00))

/-- What the next character of a string belongs to. -/
inductive StringMode where
  | plain
  /-- A backslash came before. -/
  | escape
  /-- A numeric escape, of which `count` digits are still to come. -/
  | numeric (count : Nat) (unit : Nat)
deriving DecidableEq, Repr

/-- A string in the course of being read. -/
structure StringReader where
  /-- The characters so far, the last one first. -/
  read : List Char
  /-- The first half of a character that waits for its second half. -/
  leading : Option Nat
  /-- No half of a character was left alone. -/
  sound : Bool
  mode : StringMode
deriving Repr

namespace StringReader

/-- Nothing is read yet. -/
def start : StringReader :=
  ⟨[], none, true, .plain⟩

/-- Takes a whole character; a half that waits is then left alone. -/
def put (r : StringReader) (c : Char) : StringReader :=
  ⟨c :: r.read, none, r.sound && r.leading.isNone, .plain⟩

/-- Takes the unit of a numeric escape: a character, or a half of one. -/
def putUnit (r : StringReader) (unit : Nat) : StringReader :=
  match r.leading with
  | some leading =>
    if isTrailing unit then ⟨joined leading unit :: r.read, none, r.sound, .plain⟩
    else if isLeading unit then ⟨r.read, some unit, false, .plain⟩
    else ⟨Char.ofNat unit :: r.read, none, false, .plain⟩
  | none =>
    if isTrailing unit then ⟨r.read, none, false, .plain⟩
    else if isLeading unit then ⟨r.read, some unit, r.sound, .plain⟩
    else ⟨Char.ofNat unit :: r.read, none, r.sound, .plain⟩

/-- The text that was read, if it is made of Unicode characters. -/
def text (r : StringReader) : Option String :=
  if r.sound && r.leading.isNone then some (String.ofList r.read.reverse) else none

/-- Reads up to the closing quotation mark and gives the text behind it. -/
def run? (r : StringReader) : List Char → Option (Option String × List Char)
  | [] => none
  | c :: rest =>
    match r.mode with
    | .plain =>
      if c = '\x22' then some (r.text, rest)
      else if c = '\\' then { r with mode := .escape }.run? rest
      else if c < ' ' then none
      else (r.put c).run? rest
    | .escape =>
      if c = 'u' then { r with mode := .numeric 4 0 }.run? rest
      else
        match shortEscape? c with
        | none => none
        | some meant => (r.put meant).run? rest
    | .numeric count unit =>
      match hexDigit? c with
      | none => none
      | some digit =>
        if count ≤ 1 then (r.putUnit (16 * unit + digit)).run? rest
        else { r with mode := .numeric (count - 1) (16 * unit + digit) }.run? rest

end StringReader

/-- A numeric escape of a character in the 16-bit range. -/
def numericEscape (c : Char) : List Char :=
  let digit (n : Nat) := Nat.digitChar (n % 16)
  ['\\', 'u', digit (c.toNat / 4096), digit (c.toNat / 256), digit (c.toNat / 16), digit c.toNat]

/-- A character of a string as it is written: the two marks, the five common control characters and
the rest of the controls have escapes, all others stand for themselves. -/
def escaped (c : Char) : List Char :=
  match c with
  | '\x22' => ['\\', '\x22']
  | '\\' => ['\\', '\\']
  | '\x08' => ['\\', 'b']
  | '\x0c' => ['\\', 'f']
  | '\n' => ['\\', 'n']
  | '\r' => ['\\', 'r']
  | '\t' => ['\\', 't']
  | c => if c < ' ' then numericEscape c else [c]

/-- The written form of a string. One that is no Unicode text is written as a lone half of a
character. -/
def stringText : Option String → List Char
  | some text => '\x22' :: text.toList.flatMap escaped ++ ['\x22']
  | none => ['\x22', '\\', 'u', 'd', '8', '0', '0', '\x22']

/-! ## Tokens -/

/-- The written form of a token. -/
def Token.text : Token → List Char
  | .openArray => ['[']
  | .closeArray => [']']
  | .openObject => ['\x7b']
  | .closeObject => ['\x7d']
  | .comma => [',']
  | .colon => [':']
  | .null => ['n', 'u', 'l', 'l']
  | .bool true => ['t', 'r', 'u', 'e']
  | .bool false => ['f', 'a', 'l', 's', 'e']
  | .number numeral => numeral.text
  | .string text => stringText text

/-- The blanks that may stand between tokens. -/
def isBlank (c : Char) : Bool :=
  c = ' ' || c = '\t' || c = '\n' || c = '\r'

/-- Reads the token at the start of a text and gives the text behind it. -/
def readToken? : List Char → Option (Token × List Char)
  | '[' :: rest => some (.openArray, rest)
  | ']' :: rest => some (.closeArray, rest)
  | '\x7b' :: rest => some (.openObject, rest)
  | '\x7d' :: rest => some (.closeObject, rest)
  | ',' :: rest => some (.comma, rest)
  | ':' :: rest => some (.colon, rest)
  | 'n' :: 'u' :: 'l' :: 'l' :: rest => some (.null, rest)
  | 't' :: 'r' :: 'u' :: 'e' :: rest => some (.bool true, rest)
  | 'f' :: 'a' :: 'l' :: 's' :: 'e' :: rest => some (.bool false, rest)
  | '\x22' :: rest => (StringReader.start.run? rest).map fun (text, rest) => (.string text, rest)
  | cs => (Numeral.read? cs).map fun (numeral, rest) => (.number numeral, rest)

/-- Reads tokens to the end of a text, `fuel` at most. The tokens read so far come in reverse. -/
def readTokens? (read : List Token) (fuel : Nat) (cs : List Char) : Option (List Token) :=
  match cs.dropWhile isBlank with
  | [] => some read.reverse
  | rest =>
    match fuel with
    | 0 => none
    | fuel + 1 =>
      match readToken? rest with
      | none => none
      | some (token, rest) => readTokens? (token :: read) fuel rest

/-- The tokens of a text. There are no more of them than characters. -/
def scan? (cs : List Char) : Option (List Token) :=
  readTokens? [] cs.length cs

end HierarchicalTuring.Json
