/-! # Tapes

A tape is bounded on the left and endless on the right. Only a finite part is stored; every
position past it holds the empty character.

* `Tape.read`, `Tape.write`, `Tape.replace` and `Tape.contents` are the operations.
* `Tape.view` is the tape as a function from positions to characters. Writing updates that function
  at one position (`view_write`), replacing starts it anew (`view_replace`).
* `trimmed empty` cuts the empty characters at the end of a text; the contents of a tape are its
  stored cells, trimmed.
-/

set_option autoImplicit false

namespace HierarchicalTuring

/-- The character of a position that was never written, unless a tape chooses another. -/
def defaultEmpty : Char := '␣'

/-- A tape: the stored cells from position 0 on and the character everywhere after them. -/
structure Tape where
  cells : Array Char
  empty : Char
deriving DecidableEq, Repr

/-- A text without the occurrences of `empty` at its end. -/
def trimmed (empty : Char) (text : List Char) : List Char :=
  (text.reverse.dropWhile (· == empty)).reverse

namespace Tape

/-- A tape that holds a text from position 0 on. -/
def ofText (text : String) (empty : Char) : Tape :=
  ⟨text.toList.toArray, empty⟩

/-- A tape that holds nothing. -/
def blank (empty : Char) : Tape :=
  ofText "" empty

instance : Inhabited Tape := ⟨blank defaultEmpty⟩

/-- The character at a position. -/
def read (t : Tape) (position : Nat) : Char :=
  t.cells.getD position t.empty

/-- Writes a character, storing empty characters up to a position beyond the stored cells. -/
def write (t : Tape) (position : Nat) (c : Char) : Tape :=
  if position < t.cells.size then
    { t with cells := t.cells.setIfInBounds position c }
  else
    { t with cells := (t.cells ++ Array.replicate (position - t.cells.size) t.empty).push c }

/-- Replaces everything stored. -/
def replace (t : Tape) (text : String) : Tape :=
  { t with cells := text.toList.toArray }

/-- The stored text without empty characters at its end. -/
def contents (t : Tape) : String :=
  String.ofList (trimmed t.empty t.cells.toList)

/-- The number of stored cells, empty ones at the end included. -/
def length (t : Tape) : Nat :=
  t.cells.size

/-- Whether no cell is stored. -/
def isEmpty (t : Tape) : Bool :=
  t.cells.isEmpty

/-! ## The endless tape -/

/-- The tape as a function from all positions to characters. -/
def view (t : Tape) : Nat → Char :=
  fun position => t.read position

/-- A text followed by the empty character forever. -/
def spread (text : List Char) (empty : Char) : Nat → Char :=
  fun position => text.getD position empty

theorem view_eq_spread (t : Tape) : t.view = spread t.cells.toList t.empty := by
  funext position
  simp [view, read, spread, List.getD_eq_getElem?_getD, Array.getD_eq_getD_getElem?]

theorem view_ofText (text : String) (empty : Char) :
    (ofText text empty).view = spread text.toList empty := by
  rw [view_eq_spread]; rfl

theorem view_replace (t : Tape) (text : String) :
    (t.replace text).view = spread text.toList t.empty := by
  rw [view_eq_spread]; rfl

@[simp] theorem empty_write (t : Tape) (position : Nat) (c : Char) :
    (t.write position c).empty = t.empty := by
  unfold write; split <;> rfl

theorem view_write (t : Tape) (position : Nat) (c : Char) (i : Nat) :
    (t.write position c).view i = if i = position then c else t.view i := by
  unfold write
  split
  · next h =>
    simp only [view, read, Array.getD_eq_getD_getElem?, Array.getElem?_setIfInBounds]
    by_cases hi : i = position
    · subst hi; simp [h]
    · simp [hi, Ne.symm hi]
  · next h =>
    have h' : t.cells.size ≤ position := Nat.le_of_not_lt h
    simp only [view, read, Array.getD_eq_getD_getElem?, Array.getElem?_push, Array.size_append,
      Array.size_replicate, Nat.add_sub_cancel' h', Array.getElem?_append, Array.getElem?_replicate]
    by_cases hi : i = position
    · simp [hi]
    · by_cases hlt : i < t.cells.size
      · simp [hi, hlt]
      · simp only [hi, if_false, hlt, Array.getElem?_eq_none (Nat.le_of_not_lt hlt)]
        split <;> simp

theorem length_write (t : Tape) (position : Nat) (c : Char) :
    (t.write position c).length = max t.length (position + 1) := by
  unfold write length
  split
  · next h => simp; omega
  · next h => simp; omega

end Tape

end HierarchicalTuring
