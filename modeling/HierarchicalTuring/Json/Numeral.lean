import HierarchicalTuring.Decimal.Digit

/-! # Numerals

* A `Numeral` is a number as it is written in a JSON text: a sign, a whole number, digits behind a
  point and a power of ten, of which the last two may be missing.
* `Numeral.text` writes one, and `Numeral.read?` reads the longest one at the start of a text: an
  optional minus, digits without a needless leading zero, an optional fraction, an optional
  exponent.
-/

set_option autoImplicit false

namespace HierarchicalTuring.Json

/-- A written number. -/
structure Numeral where
  negative : Bool
  /-- What stands before the point. -/
  whole : Nat
  /-- The digits behind the point; no digits are written without a point. -/
  fraction : List Digit
  /-- The power of ten, if one is written. -/
  exponent : Option Int
deriving DecidableEq, Repr

namespace Numeral

/-- A whole number. -/
def ofInt (n : Int) : Numeral :=
  ⟨n < 0, n.natAbs, [], none⟩

/-- Whether neither fraction nor exponent is written. -/
def isWhole (n : Numeral) : Bool :=
  n.fraction.isEmpty && n.exponent.isNone

/-! ## Writing -/

/-- The point and the digits behind it. -/
def fractionText (fraction : List Digit) : List Char :=
  if fraction = [] then [] else '.' :: fraction.map Digit.char

/-- The exponent with its mark and its sign. -/
def exponentText : Option Int → List Char
  | none => []
  | some exponent => 'e' :: (if exponent < 0 then '-' else '+') :: decimalDigits exponent.natAbs

/-- The written form. -/
def text (n : Numeral) : List Char :=
  (if n.negative then ['-'] else []) ++ decimalDigits n.whole ++ fractionText n.fraction ++
    exponentText n.exponent

/-! ## Reading -/

/-- Splits off the digits at the start of a text. -/
def spanDigits (cs : List Char) : List Char × List Char :=
  (cs.takeWhile Char.isDigit, cs.dropWhile Char.isDigit)

/-- Splits off the digits at the start of a text, of which there has to be one at least. -/
def digits? (cs : List Char) : Option (List Char × List Char) :=
  match spanDigits cs with
  | ([], _) => none
  | split => some split

/-- The digits before the point: a zero, or digits that do not begin with one. -/
def wholeDigits? (cs : List Char) : Option (List Char × List Char) :=
  match digits? cs with
  | some ('0' :: _ :: _, _) => none
  | split => split

/-- The digits behind the point; none without a point. -/
def fractionDigits? : List Char → Option (List Char × List Char)
  | '.' :: rest => digits? rest
  | cs => some ([], cs)

/-- The exponent behind its mark. -/
def exponentDigits? : List Char → Option (Int × List Char)
  | '+' :: rest => (digits? rest).map fun (digits, rest) => ((numberOfChars digits : Int), rest)
  | '-' :: rest => (digits? rest).map fun (digits, rest) => (-(numberOfChars digits : Int), rest)
  | cs => (digits? cs).map fun (digits, rest) => ((numberOfChars digits : Int), rest)

/-- The exponent; none without a mark. -/
def exponent? : List Char → Option (Option Int × List Char)
  | 'e' :: rest => (exponentDigits? rest).map fun (exponent, rest) => (some exponent, rest)
  | 'E' :: rest => (exponentDigits? rest).map fun (exponent, rest) => (some exponent, rest)
  | cs => some (none, cs)

/-- Reads an unsigned numeral. -/
def readUnsigned? (negative : Bool) (cs : List Char) : Option (Numeral × List Char) := do
  let (whole, cs) ← wholeDigits? cs
  let (fraction, cs) ← fractionDigits? cs
  let (exponent, cs) ← exponent? cs
  return (⟨negative, numberOfChars whole, fraction.map Digit.ofChar, exponent⟩, cs)

/-- Reads the numeral at the start of a text and gives the text behind it. -/
def read? : List Char → Option (Numeral × List Char)
  | '-' :: rest => readUnsigned? true rest
  | cs => readUnsigned? false cs

theorem spanDigits_append (cs : List Char) : (spanDigits cs).1 ++ (spanDigits cs).2 = cs :=
  List.takeWhile_append_dropWhile

end Numeral

end HierarchicalTuring.Json
