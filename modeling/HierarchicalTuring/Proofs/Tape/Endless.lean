import HierarchicalTuring.Proofs.Tape.Contents
import Mathlib

/-! # Edits of an endless tape

A head stores a finite part of its tape, which grows as it is written to and which is replaced as a
whole. `EndlessHead` is the same head over a tape without a stored part: a function from positions to
characters. Whatever edits are made to both, they show the same (`Head.edited_refines`).

An edit keeps what the two have in common (`Head.Shows`), as long as the head does not come to the
end of the 64-bit range, where it would stop (`Shows.apply`, `Shows.run`).
-/

set_option autoImplicit false

namespace HierarchicalTuring

/-- A change to a head, or to the tape under it. -/
inductive Head.Edit where
  | set (position : Nat) (c : Char)
  | replace (text : String)
  | move (delta : Int)
  | write (c : Char)
deriving DecidableEq, Repr

namespace Head.Edit

def apply : Edit → Head → Head
  | set position c, h => { h with tape := h.tape.write position c }
  | replace text, h => { h with tape := h.tape.replace text }
  | move delta, h => h.moveBy delta
  | write c, h => h.write c

def delta? : Edit → Option Int
  | move delta => some delta
  | _ => none

end Head.Edit

/-- The head after some edits, from position 0 of a tape made from a text. -/
def Head.edited (text : String) (empty : Char) (edits : List Head.Edit) : Head :=
  edits.foldl (fun h edit => edit.apply h) (Head.start (Tape.ofText text empty))

/-- The position a movement leads to on a tape that ends on the left only. -/
def landing (position : Nat) (delta : Int) : Nat :=
  (position + delta).toNat

/-- A head over a tape that is endless on the right. `text` is the text last put on the tape as a
whole, `written` the positions written to since. -/
structure EndlessHead where
  cells : Nat → Char
  position : Nat
  text : String
  written : Finset Nat

namespace EndlessHead

variable (empty : Char)

def start (text : String) : EndlessHead :=
  ⟨Tape.spread text.toList empty, 0, text, ∅⟩

def writeAt (w : EndlessHead) (position : Nat) (c : Char) : EndlessHead :=
  { w with cells := Function.update w.cells position c, written := insert position w.written }

def apply (w : EndlessHead) : Head.Edit → EndlessHead
  | .set position c => w.writeAt position c
  | .replace text => { w with cells := Tape.spread text.toList empty, text, written := ∅ }
  | .move delta => { w with position := landing w.position delta }
  | .write c => w.writeAt w.position c

def edited (text : String) (edits : List Head.Edit) : EndlessHead :=
  edits.foldl (apply empty) (start empty text)

theorem position_foldl_apply (edits : List Head.Edit) (w : EndlessHead) :
    (edits.foldl (apply empty) w).position =
      (edits.filterMap Head.Edit.delta?).foldl landing w.position := by
  induction edits generalizing w with
  | nil => rfl
  | cons edit edits ih => cases edit <;> exact ih _

end EndlessHead

namespace Head

/-- A head shows an endless one over a tape with the empty character `empty`. -/
structure Shows (empty : Char) (h : Head) (w : EndlessHead) : Prop where
  empty_eq : h.tape.empty = empty
  view_eq : h.tape.view = w.cells
  position_eq : h.position = w.position
  length_eq : h.tape.length = max w.text.length (w.written.sup (· + 1))

variable {empty : Char} {h : Head} {w : EndlessHead}

theorem shows_start (text : String) (empty : Char) :
    (start (Tape.ofText text empty)).Shows empty (EndlessHead.start empty text) where
  empty_eq := rfl
  view_eq := Tape.view_ofText text empty
  position_eq := rfl
  length_eq := by simp [start, EndlessHead.start, Tape.ofText, Tape.length, String.length_toList]

namespace Shows

theorem writeAt (hs : h.Shows empty w) (position : Nat) (c : Char) :
    Shows empty { h with tape := h.tape.write position c } (w.writeAt position c) where
  empty_eq := (h.tape.empty_write position c).trans hs.empty_eq
  view_eq := by
    funext i
    simp only [Tape.view_write, EndlessHead.writeAt, Function.update_apply, hs.view_eq]
  position_eq := hs.position_eq
  length_eq := by
    simp only [Tape.length_write, EndlessHead.writeAt, Finset.sup_insert, hs.length_eq]
    omega

theorem replace (hs : h.Shows empty w) (text : String) :
    Shows empty { h with tape := h.tape.replace text } (w.apply empty (.replace text)) where
  empty_eq := hs.empty_eq
  view_eq := by rw [Tape.view_replace, hs.empty_eq]; rfl
  position_eq := hs.position_eq
  length_eq := by simp [Tape.replace, Tape.length, EndlessHead.apply, String.length_toList]

theorem moveBy (hs : h.Shows empty w) {delta : Int}
    (hbelow : landing w.position delta < maxPosition) :
    (h.moveBy delta).Shows empty (w.apply empty (.move delta)) where
  empty_eq := hs.empty_eq
  view_eq := hs.view_eq
  position_eq := by
    rw [position_moveBy, hs.position_eq]
    exact Nat.min_eq_left hbelow.le
  length_eq := hs.length_eq

theorem apply (hs : h.Shows empty w) (edit : Edit)
    (hbelow : (w.apply empty edit).position < maxPosition) :
    (edit.apply h).Shows empty (w.apply empty edit) := by
  cases edit with
  | set position c => exact hs.writeAt position c
  | replace text => exact hs.replace text
  | move delta => exact hs.moveBy hbelow
  | write c =>
    simpa only [Edit.apply, Head.write, EndlessHead.apply, hs.position_eq]
      using hs.writeAt w.position c

theorem run (hs : h.Shows empty w) {edits : List Edit}
    (hbelow : ∀ p ∈ (edits.filterMap Edit.delta?).scanl landing w.position, p < maxPosition) :
    (edits.foldl (fun h edit => edit.apply h) h).Shows empty
      (edits.foldl (EndlessHead.apply empty) w) := by
  induction edits generalizing h w with
  | nil => exact hs
  | cons edit edits ih =>
    have hrest : ∀ p ∈ (edits.filterMap Edit.delta?).scanl landing (w.apply empty edit).position,
        p < maxPosition := by
      intro p hp
      apply hbelow p
      cases edit with
      | move delta =>
        simp only [List.filterMap_cons, Edit.delta?, List.scanl_cons]
        exact List.mem_cons_of_mem _ hp
      | _ => exact hp
    have hnext : (w.apply empty edit).position < maxPosition := by
      apply hrest
      simpa using List.head_mem List.scanl_ne_nil
    exact ih (hs.apply edit hnext) hrest

end Shows

/-- Some edits, made to a head over a tape that stores a text and to one over the text followed by
the empty character forever, leave two heads that cannot be told apart. The endless one also says
what the contents are and how much is stored. -/
theorem edited_refines (text : String) (empty : Char) (edits : List Edit)
    (hbelow : ∀ p ∈ (edits.filterMap Edit.delta?).scanl landing 0, p < maxPosition) :
    (∀ i, (edited text empty edits).tape.read i = (EndlessHead.edited empty text edits).cells i) ∧
    (edited text empty edits).position = (edits.filterMap Edit.delta?).foldl landing 0 ∧
    (∀ u, (edited text empty edits).tape.contents = u ↔
      u.toList.getLast? ≠ some empty ∧
        Tape.spread u.toList empty = (EndlessHead.edited empty text edits).cells) ∧
    (∀ t : Tape, t.empty = empty →
      (t.contents = (edited text empty edits).tape.contents ↔
        ∀ i, t.read i = (edited text empty edits).tape.read i)) ∧
    (∀ i, ((edited text empty edits).tape.replace (edited text empty edits).tape.contents).read i =
      (edited text empty edits).tape.read i) ∧
    (edited text empty edits).tape.length =
      max (EndlessHead.edited empty text edits).text.length
        ((EndlessHead.edited empty text edits).written.sup (· + 1)) := by
  have hs : (edited text empty edits).Shows empty (EndlessHead.edited empty text edits) :=
    (shows_start text empty).run hbelow
  refine ⟨fun i => congrFun hs.view_eq i, ?position, fun u => ?contents, fun t ht => ?alike,
    fun i => ?replaced, hs.length_eq⟩
  case position => exact hs.position_eq.trans (EndlessHead.position_foldl_apply empty edits _)
  case contents => rw [Tape.contents_eq_iff, hs.empty_eq, hs.view_eq]
  case alike => exact Tape.contents_eq_contents_iff (ht.trans hs.empty_eq.symm)
  case replaced =>
    have hview := Tape.view_replace (edited text empty edits).tape
      (edited text empty edits).tape.contents
    rw [Tape.spread_contents] at hview
    exact congrFun hview i

/-- Edits that move against the left end, and that store the character `_` past a text. -/
def Edit.pastBothEnds : List Edit :=
  [.move (-3), .write 'x', .set 7 '_', .replace "c_", .move 3, .write '_']

theorem edited_pastBothEnds :
    (∀ p ∈ (Edit.pastBothEnds.filterMap Edit.delta?).scanl landing 0, p < maxPosition) ∧
    (edited "ab_" '_' Edit.pastBothEnds).position = 3 ∧
    (edited "ab_" '_' Edit.pastBothEnds).tape.read 0 = 'c' ∧
    (edited "ab_" '_' Edit.pastBothEnds).tape.length = 4 := by
  have hbelow : ∀ p ∈ (Edit.pastBothEnds.filterMap Edit.delta?).scanl landing 0,
      p < maxPosition := by decide
  obtain ⟨hread, hposition, -, -, -, hlength⟩ :=
    edited_refines "ab_" '_' Edit.pastBothEnds hbelow
  exact ⟨hbelow, hposition, (hread 0).trans (by decide +kernel),
    hlength.trans (by decide +kernel)⟩

end Head

end HierarchicalTuring
