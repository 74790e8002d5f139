import HierarchicalTuring.Direction
import HierarchicalTuring.Store.Handle

/-! # Transitions

* A `Transition` reads any of its input characters, may write one, moves the head, and leads to the
  state behind a handle.
* `firstOccurrences` drops the repeated characters of a text; every input is made so
  (`Transition.nodup_input_make`), and a transition reads exactly the characters of the text it was
  made from (`Transition.reads_make`).
-/

set_option autoImplicit false

namespace HierarchicalTuring

/-- A text without its repeated characters; of each the first occurrence stays. -/
def firstOccurrences (text : List Char) : List Char :=
  text.foldl (fun kept c => if c ∈ kept then kept else kept ++ [c]) []

/-- An edge out of a state. -/
structure Transition where
  destination : Handle
  input : List Char
  output : Option Char
  direction : Direction
deriving DecidableEq, Repr

namespace Transition

/-- A transition that reads the characters of a text. -/
def make (destination : Handle) (input : String) (output : Option Char) (direction : Direction) :
    Transition :=
  ⟨destination, firstOccurrences input.toList, output, direction⟩

/-- Whether the transition is taken on a character. -/
def reads (t : Transition) (c : Char) : Bool :=
  c ∈ t.input

end Transition

/-! ## Inputs without repetition -/

theorem foldl_firstOccurrences (text kept : List Char) :
    (kept.Nodup →
      (text.foldl (fun kept c => if c ∈ kept then kept else kept ++ [c]) kept).Nodup) ∧
    ∀ c, c ∈ text.foldl (fun kept c => if c ∈ kept then kept else kept ++ [c]) kept ↔
      c ∈ kept ∨ c ∈ text := by
  induction text generalizing kept with
  | nil => simp
  | cons head rest ih =>
    simp only [List.foldl_cons]
    by_cases h : head ∈ kept
    · simp only [h, if_true]
      refine ⟨(ih kept).1, fun c => ?_⟩
      rw [(ih kept).2 c, List.mem_cons]
      constructor
      · rintro (hc | hc)
        · exact .inl hc
        · exact .inr (.inr hc)
      · rintro (hc | rfl | hc)
        · exact .inl hc
        · exact .inl h
        · exact .inr hc
    · simp only [h, if_false]
      refine ⟨fun hkept => (ih _).1 ?_, fun c => ?_⟩
      · rw [List.nodup_append]
        refine ⟨hkept, by simp, ?_⟩
        rintro a ha b hb rfl
        rw [List.mem_singleton] at hb
        exact h (hb ▸ ha)
      · rw [(ih _).2 c, List.mem_append, List.mem_singleton, List.mem_cons, or_assoc]

theorem nodup_firstOccurrences (text : List Char) : (firstOccurrences text).Nodup :=
  (foldl_firstOccurrences text []).1 List.nodup_nil

@[simp] theorem mem_firstOccurrences {text : List Char} {c : Char} :
    c ∈ firstOccurrences text ↔ c ∈ text :=
  ((foldl_firstOccurrences text []).2 c).trans (by simp)

theorem Transition.nodup_input_make (destination : Handle) (input : String)
    (output : Option Char) (direction : Direction) :
    (make destination input output direction).input.Nodup :=
  nodup_firstOccurrences _

theorem Transition.reads_make (destination : Handle) (input : String) (output : Option Char)
    (direction : Direction) (c : Char) :
    (make destination input output direction).reads c = true ↔ c ∈ input.toList := by
  simp [reads, make]

end HierarchicalTuring
