import HierarchicalTuring.Document.Project
import HierarchicalTuring.Proofs.NameMap

/-! # Documents that describe something

* `TransitionDocument.normal` repeats no character in its input, and `StateDocument.normal` and
  `MachineDocument.normal` drop repeated transitions as well.
* `MachineDocument.Valid`: every transition leads to a state of the document, writes one character
  or none, has one of the three moves and reads something, and two transitions of a state are the
  same or read no common character.
-/

set_option autoImplicit false

namespace HierarchicalTuring

theorem foldl_firstOccurrences_of_nodup (text kept : List Char) (h : (kept ++ text).Nodup) :
    text.foldl (fun kept c => if c ∈ kept then kept else kept ++ [c]) kept = kept ++ text := by
  induction text generalizing kept with
  | nil => simp
  | cons c rest ih =>
    have hc : c ∉ kept := by
      intro hmem
      exact (List.nodup_append.mp h).2.2 c hmem c List.mem_cons_self rfl
    rw [List.foldl_cons, if_neg hc, ih _ (by simpa using h)]
    simp

theorem firstOccurrences_of_nodup {text : List Char} (h : text.Nodup) :
    firstOccurrences text = text :=
  foldl_firstOccurrences_of_nodup text [] h

theorem firstOccurrences_ne_nil {text : List Char} (h : text ≠ []) :
    firstOccurrences text ≠ [] := by
  obtain ⟨c, hc⟩ := List.exists_mem_of_ne_nil text h
  exact List.ne_nil_of_mem (mem_firstOccurrences.mpr hc)

theorem singleChar?_eq_some_iff {text : String} {c : Char} :
    singleChar? text = some c ↔ text = String.singleton c := by
  unfold singleChar?
  constructor
  · intro h
    split at h
    · next d hd =>
      cases h
      rw [← String.ofList_toList (s := text), hd]
      rfl
    · cases h
  · rintro rfl
    simp

namespace TransitionDocument

/-- The description with an input that repeats no character. -/
def normal (t : TransitionDocument) : TransitionDocument :=
  { t with input := String.ofList (firstOccurrences t.input.toList) }

theorem mem_input_normal {t : TransitionDocument} {c : Char} :
    c ∈ t.normal.input.toList ↔ c ∈ t.input.toList := by
  simp [normal]

theorem normal_of_nodup {t : TransitionDocument} (h : t.input.toList.Nodup) : t.normal = t := by
  rw [normal, firstOccurrences_of_nodup h, String.ofList_toList]

/-- No character is read by both. -/
def Apart (t u : TransitionDocument) : Prop :=
  ∀ c ∈ t.input.toList, c ∉ u.input.toList

/-- The transition can be one of a machine that has the described states. -/
structure Valid (states : NameMap StateDocument) (t : TransitionDocument) : Prop where
  destination : ∃ s, states.find? t.destination = some s
  output : ∀ text, t.output = some text → ∃ c, text = String.singleton c
  move : ∃ direction : Direction, t.move = String.singleton direction.code
  input : t.input.toList ≠ []

end TransitionDocument

namespace StateDocument

/-- The description without transitions. -/
def bare (s : StateDocument) : StateDocument :=
  { s with transitions := [] }

/-- The description with one more transition, unless it is there already. -/
def add (s : StateDocument) (t : TransitionDocument) : StateDocument :=
  if t.normal ∈ s.transitions then s else { s with transitions := s.transitions ++ [t.normal] }

/-- The transition is there already, or reads only characters that no other reads. -/
def Admits (s : StateDocument) (t : TransitionDocument) : Prop :=
  t.normal ∈ s.transitions ∨ ∀ u ∈ s.transitions, t.Apart u

/-- The description with inputs that repeat no character and without repeated transitions. -/
def normal (s : StateDocument) : StateDocument :=
  s.transitions.foldl add s.bare

theorem mem_transitions_add {s : StateDocument} {t u : TransitionDocument} :
    u ∈ (s.add t).transitions ↔ u ∈ s.transitions ∨ u = t.normal := by
  unfold add
  split
  · next h =>
    exact ⟨.inl, fun hu => hu.elim id fun heq => heq ▸ h⟩
  · simp

theorem mem_transitions_foldl_add {s : StateDocument} {l : List TransitionDocument}
    {u : TransitionDocument} :
    u ∈ (l.foldl add s).transitions ↔ u ∈ s.transitions ∨ ∃ t ∈ l, u = t.normal := by
  induction l generalizing s with
  | nil => simp
  | cons t l ih =>
    rw [List.foldl_cons, ih, mem_transitions_add, or_assoc]
    simp

/-- What was built from some transitions admits one that is the same as or apart from each of them.
-/
theorem admits_foldl_add {s : StateDocument} (hs : s.transitions = []) {l : List TransitionDocument}
    {t : TransitionDocument} (h : ∀ u ∈ l, t.normal = u.normal ∨ t.Apart u) :
    (l.foldl add s).Admits t := by
  by_cases hsame : ∃ u ∈ l, t.normal = u.normal
  · exact .inl (mem_transitions_foldl_add.mpr (.inr hsame))
  · refine .inr fun v hv => ?_
    rcases mem_transitions_foldl_add.mp hv with hnone | ⟨u, hu, rfl⟩
    · rw [hs] at hnone
      cases hnone
    · have hapart := (h u hu).resolve_left fun heq => hsame ⟨u, hu, heq⟩
      exact fun c hc => mt TransitionDocument.mem_input_normal.mp (hapart c hc)

theorem position_normal (s : StateDocument) : s.normal.position = s.position := by
  have hadd : ∀ (l : List TransitionDocument) (s : StateDocument),
      (l.foldl add s).position = s.position := by
    intro l
    induction l with
    | nil => exact fun _ => rfl
    | cons t l ih =>
      intro s
      rw [List.foldl_cons, ih]
      unfold add
      split <;> rfl
  exact hadd _ _

theorem foldl_add_of_nodup {s : StateDocument} {l : List TransitionDocument}
    (h : (s.transitions ++ l.map TransitionDocument.normal).Nodup) :
    l.foldl add s = { s with transitions := s.transitions ++ l.map TransitionDocument.normal } := by
  induction l generalizing s with
  | nil => simp
  | cons t l ih =>
    have hnew : t.normal ∉ s.transitions := by
      intro hmem
      exact (List.nodup_append.mp h).2.2 _ hmem _ List.mem_cons_self rfl
    have hadd : s.add t = { s with transitions := s.transitions ++ [t.normal] } := if_neg hnew
    rw [List.foldl_cons, hadd, ih (by simpa using h)]
    simp

end StateDocument

namespace MachineDocument

/-- Every state in its normal form. -/
def normal (d : MachineDocument) : MachineDocument where
  states := d.states.map StateDocument.normal
  submachines := none

/-- The document describes a machine. -/
structure Valid (d : MachineDocument) : Prop where
  transition : ∀ entry ∈ d.states.entries, ∀ t ∈ entry.2.transitions, t.Valid d.states
  apart : ∀ entry ∈ d.states.entries, ∀ t ∈ entry.2.transitions, ∀ u ∈ entry.2.transitions,
    t.normal = u.normal ∨ t.Apart u

end MachineDocument

end HierarchicalTuring
