import HierarchicalTuring.Tape.Head
import Mathlib.Data.List.DropRight
import Mathlib.Data.List.GetD

/-! # The contents of a tape

A tape may store empty characters at its end, so several tapes read the same. Their contents are one
text, the only one that does not end in the empty character and that, followed by it forever, is what
can be read (`Tape.contents_eq_iff`). Two tapes with one empty character have the same contents
exactly if they read the same (`Tape.contents_eq_contents_iff`).

`Tape.Holds` says that a text stands somewhere on a tape, with whatever is before and behind it.
-/

set_option autoImplicit false

namespace HierarchicalTuring

/-! ## Texts that do not end in the empty character -/

variable {empty : Char} {text u v : List Char}

theorem getLast?_trimmed (empty : Char) (text : List Char) :
    (trimmed empty text).getLast? ≠ some empty := by
  have hfirst := List.head?_dropWhile_not (· == empty) text.reverse
  unfold trimmed
  rw [List.getLast?_reverse]
  intro hlast
  rw [hlast] at hfirst
  simp at hfirst

namespace Tape

theorem spread_of_length_le {i : Nat} (h : text.length ≤ i) : spread text empty i = empty :=
  List.getD_eq_default text empty h

theorem spread_append_cons (u : List Char) (c : Char) (v : List Char) (empty : Char) :
    spread (u ++ c :: v) empty u.length = c := by
  simp [spread]

theorem spread_append_of_forall_eq {rest : List Char} (h : ∀ c ∈ rest, c = empty) :
    spread (text ++ rest) empty = spread text empty := by
  funext i
  unfold spread
  by_cases hi : i < text.length
  · rw [List.getD_append _ _ _ _ hi]
  · rw [List.getD_append_right _ _ _ _ (by omega), List.getD_eq_default text empty (by omega),
      List.getD_eq_getElem?_getD]
    cases hc : rest[i - text.length]? with
    | none => rfl
    | some c => exact h c (List.mem_of_getElem? hc)

theorem spread_trimmed (empty : Char) (text : List Char) :
    spread (trimmed empty text) empty = spread text empty := by
  have hsplit : trimmed empty text ++ text.rtakeWhile (· == empty) = text :=
    List.rdropWhile_append_rtakeWhile
  have hrest : ∀ c ∈ text.rtakeWhile (· == empty), c = empty := fun c hc => by
    simpa using List.mem_rtakeWhile_imp hc
  conv_rhs => rw [← hsplit, spread_append_of_forall_eq hrest]

/-- The last character of a text that does not end in the empty one can be told from what stands
beyond every shorter text. -/
theorem length_le_of_spread_eq (hv : v.getLast? ≠ some empty)
    (h : spread u empty = spread v empty) : v.length ≤ u.length := by
  by_contra hlt
  have hread := congrFun h (v.length - 1)
  rw [spread_of_length_le (by omega)] at hread
  apply hv
  rw [List.getLast?_eq_getElem?, List.getElem?_eq_getElem (by omega)]
  simpa [spread, show v.length - 1 < v.length by omega] using hread.symm

theorem eq_of_spread_eq (hu : u.getLast? ≠ some empty) (hv : v.getLast? ≠ some empty)
    (h : spread u empty = spread v empty) : u = v := by
  have hlength : u.length = v.length :=
    Nat.le_antisymm (length_le_of_spread_eq hu h.symm) (length_le_of_spread_eq hv h)
  refine List.ext_getElem hlength fun i hi hi' => ?_
  simpa [spread, hi, hi'] using congrFun h i

/-! ## What can be read -/

variable {t t' : Tape}

theorem read_of_length_le {i : Nat} (h : t.length ≤ i) : t.read i = t.empty := by
  simp only [read, length] at h ⊢
  simp [Array.getD_eq_getD_getElem?, Array.getElem?_eq_none h]

theorem read_write (t : Tape) (position : Nat) (c : Char) (i : Nat) :
    (t.write position c).read i = if i = position then c else t.read i :=
  view_write t position c i

theorem read_ofText (text : String) (empty : Char) (i : Nat) :
    (ofText text empty).read i = spread text.toList empty i :=
  congrFun (view_ofText text empty) i

theorem empty_eq_of_read (h : ∀ i, t.read i = t'.read i) : t.empty = t'.empty := by
  have ht := read_of_length_le (Nat.le_max_left t.length t'.length)
  have ht' := read_of_length_le (Nat.le_max_right t.length t'.length)
  rw [← ht, ← ht', h]

/-! ## Contents -/

theorem getLast?_contents (t : Tape) : t.contents.toList.getLast? ≠ some t.empty := by
  rw [contents, String.toList_ofList]
  exact getLast?_trimmed t.empty t.cells.toList

theorem spread_contents (t : Tape) : spread t.contents.toList t.empty = t.view := by
  rw [contents, String.toList_ofList, spread_trimmed, view_eq_spread]

theorem contents_eq_iff {text : String} : t.contents = text ↔
    text.toList.getLast? ≠ some t.empty ∧ spread text.toList t.empty = t.view := by
  constructor
  · rintro rfl
    exact ⟨t.getLast?_contents, t.spread_contents⟩
  · rintro ⟨hlast, hview⟩
    refine String.toList_injective ?_
    exact eq_of_spread_eq t.getLast?_contents hlast (t.spread_contents.trans hview.symm)

theorem contents_eq_contents_iff (h : t.empty = t'.empty) :
    t.contents = t'.contents ↔ ∀ i, t.read i = t'.read i := by
  rw [contents_eq_iff, h, t'.spread_contents, funext_iff, and_iff_right t'.getLast?_contents]
  exact forall_congr' fun i => eq_comm

theorem contents_eq_of_read (h : ∀ i, t.read i = t'.read i) : t.contents = t'.contents :=
  (contents_eq_contents_iff (empty_eq_of_read h)).mpr h

/-! ## Texts on a tape -/

/-- A text stands on the tape from a position on. -/
def Holds (t : Tape) (position : Nat) (text : List Char) : Prop :=
  ∀ i (hi : i < text.length), t.read (position + i) = text[i]

theorem holds_ofText (text : String) (empty : Char) : (ofText text empty).Holds 0 text.toList := by
  intro i hi
  rw [Nat.zero_add, read_ofText, spread, List.getD_eq_getElem _ _ hi]

namespace Holds

variable {c : Char} {position : Nat}

theorem head (h : t.Holds position (c :: text)) : t.read position = c :=
  h 0 (by simp)

theorem tail (h : t.Holds position (c :: text)) : t.Holds (position + 1) text := by
  intro i hi
  rw [Nat.add_right_comm]
  exact h (i + 1) (by simpa using hi)

theorem left (h : t.Holds position (u ++ v)) : t.Holds position u := by
  intro i hi
  rw [h i (by simp; omega), List.getElem_append_left hi]

theorem right (h : t.Holds position (u ++ v)) : t.Holds (position + u.length) v := by
  intro i hi
  rw [Nat.add_assoc, h (u.length + i) (by simpa using hi)]
  simp

theorem write_of_lt (h : t.Holds position text) {i : Nat} (hi : i < position) :
    (t.write i c).Holds position text := by
  intro j hj
  rw [read_write, if_neg (by omega), h j hj]

end Holds

end Tape

end HierarchicalTuring
