import HierarchicalTuring.Text.Unprintable
import HierarchicalTuring.Text.Extending

/-! # Quoted text

Error messages show characters, texts and lists of texts in quotation marks, so that a reader sees
where they begin and end.

* `quotedChar` stands between apostrophes and `quotedText` between double quotes; each escapes its
  own mark, the backslash, and the four short escapes.
* A character that is unprintable or extends the one before it is written by its code point
  (`escaped_eq_of_unprintable`), and every other one stands for itself.
* `quotedList` shows a list of texts.
-/

set_option autoImplicit false

namespace HierarchicalTuring.Text

/-- A character by its code point in lower-case hexadecimal. -/
def codePointEscape (c : Char) : List Char :=
  ['\\', 'u', '\x7b'] ++ Nat.toDigits 16 c.toNat ++ ['\x7d']

/-- Whether a character is written by its code point. -/
def needsCodePoint (c : Char) : Bool :=
  extending.contains c || unprintable.contains c

/-- A character as it stands between two quotation marks `mark`. -/
def escaped (mark : Char) (c : Char) : List Char :=
  if c = '\x00' then ['\\', '0']
  else if c = '\t' then ['\\', 't']
  else if c = '\r' then ['\\', 'r']
  else if c = '\n' then ['\\', 'n']
  else if c = '\\' ∨ c = mark then ['\\', c]
  else if needsCodePoint c then codePointEscape c
  else [c]

/-- A text between two quotation marks `mark`. -/
def quotedWith (mark : Char) (cs : List Char) : String :=
  String.ofList (mark :: cs.flatMap (escaped mark) ++ [mark])

/-- A character between apostrophes. -/
def quotedChar (c : Char) : String :=
  quotedWith '\x27' [c]

/-- A text between double quotes. -/
def quotedText (s : String) : String :=
  quotedWith '\x22' s.toList

/-- A list of quoted texts in square brackets. -/
def quotedList (texts : List String) : String :=
  "[" ++ ", ".intercalate (texts.map quotedText) ++ "]"

theorem escaped_eq_of_unprintable {mark c : Char} (h : needsCodePoint c = true)
    (hmark : c ≠ mark) (hshort : c ∉ ['\x00', '\t', '\r', '\n', '\\']) :
    escaped mark c = codePointEscape c := by
  simp only [List.mem_cons, List.not_mem_nil, or_false, not_or] at hshort
  simp [escaped, h, hmark, hshort]

theorem escaped_eq_self {mark c : Char} (h : needsCodePoint c = false)
    (hmark : c ≠ mark) (hshort : c ∉ ['\x00', '\t', '\r', '\n', '\\']) :
    escaped mark c = [c] := by
  simp only [List.mem_cons, List.not_mem_nil, or_false, not_or] at hshort
  simp [escaped, h, hmark, hshort]

end HierarchicalTuring.Text
