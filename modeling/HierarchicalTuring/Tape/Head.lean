import HierarchicalTuring.Direction
import HierarchicalTuring.Tape

/-! # Heads

* `Head` is a position over a tape. A movement adds to the position and stops at both ends of the
  64-bit range (`position_moveBy`), so the head never leaves the tape to the left.
-/

set_option autoImplicit false

namespace HierarchicalTuring

/-- The largest position a head can take. -/
def maxPosition : Nat := Nat.pow 2 64 - 1

/-- A read and write head over one tape. -/
structure Head where
  tape : Tape
  position : Nat
deriving DecidableEq, Repr

namespace Head

/-- A head at position 0. -/
def start (tape : Tape) : Head :=
  ⟨tape, 0⟩

/-- The position after a movement that stops at both ends of the range. -/
def clamp (position : Int) : Nat :=
  min position.toNat maxPosition

/-- Moves the head by a signed amount. -/
def moveBy (h : Head) (delta : Int) : Head :=
  { h with position := clamp (h.position + delta) }

/-- Moves the head one cell or not at all. -/
def move (h : Head) (direction : Direction) : Head :=
  h.moveBy direction.delta

/-- The character under the head. -/
def read (h : Head) : Char :=
  h.tape.read h.position

/-- Writes under the head. -/
def write (h : Head) (c : Char) : Head :=
  { h with tape := h.tape.write h.position c }

@[simp] theorem tape_moveBy (h : Head) (delta : Int) : (h.moveBy delta).tape = h.tape := rfl

@[simp] theorem position_write (h : Head) (c : Char) : (h.write c).position = h.position := rfl

theorem position_moveBy (h : Head) (delta : Int) :
    (h.moveBy delta).position = min (h.position + delta).toNat maxPosition := rfl

theorem position_moveBy_le (h : Head) (delta : Int) : (h.moveBy delta).position ≤ maxPosition :=
  Nat.min_le_right _ _

theorem read_write (h : Head) (c : Char) : (h.write c).read = c := by
  have := Tape.view_write h.tape h.position c h.position
  simpa [Tape.view, read, write] using this

end Head

end HierarchicalTuring
