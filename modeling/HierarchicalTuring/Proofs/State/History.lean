import HierarchicalTuring.Proofs.State.Scan

/-! # The transitions of a state over its history

* `State.EdgeEdit` is a change of the transitions of a state, made with any number and any handle.
  `State.edited` makes changes one after the other, and `State.handedOut` lists the numbers that they
  give to new transitions.
* `Indexed.edgeEdit_cases` is all that one change does to numbers and transitions: it stores one
  transition as the last one, under the next number, or it stores none.
* Numbers increase over a history (`Indexed.handedOut_increase`), what is stored was given its number
  by a change (`Indexed.ids_edited_sublist`), and a number never comes to stand for another
  transition (`Indexed.transition?_edited`).
* `edited_agrees_with_scan`: after every history of a new state its index is a scan.
-/

set_option autoImplicit false

namespace HierarchicalTuring

namespace Index

variable {κ : Type} [DecidableEq κ]

theorem nodup_keys_insertAll {index : Index κ} (h : index.keys.Nodup) (keys : List κ)
    (value : Nat) : (index.insertAll keys value).keys.Nodup := by
  induction keys generalizing index with
  | nil => exact h
  | cons key keys ih => exact ih (nodup_keys_insert h key value)

end Index

namespace State

/-! ## Changes of the transitions -/

/-- A change of the transitions of a state. -/
inductive EdgeEdit where
  | add (destination : Handle) (input : String) (output : Option Char) (direction : Direction)
  | remove (id : TransitionId)
  | removeTo (destination : Handle)

/-- The state after a change. One that is refused, or that finds nothing to remove, leaves the state
as it is. -/
def EdgeEdit.apply : EdgeEdit → State → State
  | add destination input output direction, s =>
    match s.addTransition (.make destination input output direction) with
    | .ok (_, changed) => changed
    | .error _ => s
  | remove id, s => s.withoutTransition id
  | removeTo destination, s => s.removeTransitionsTo destination

/-- The number that a change answers with, if nothing had that number before. -/
def EdgeEdit.newId? : EdgeEdit → State → Option TransitionId
  | add destination input output direction, s =>
    match s.addTransition (.make destination input output direction) with
    | .ok (id, _) => if s.transition? id = none then some id else none
    | .error _ => none
  | remove _, _ => none
  | removeTo _, _ => none

/-- The state after some changes. -/
def edited (s : State) (edits : List EdgeEdit) : State :=
  edits.foldl (fun s edit => edit.apply s) s

/-- The numbers that some changes give to new transitions, in the order of the changes. -/
def handedOut : State → List EdgeEdit → List TransitionId
  | _, [] => []
  | s, edit :: edits => (edit.newId? s).toList ++ handedOut (edit.apply s) edits

variable {s : State}

theorem edited_append (s : State) (edits edits' : List EdgeEdit) :
    s.edited (edits ++ edits') = (s.edited edits).edited edits' :=
  List.foldl_append

/-! ## The keys of the index -/

theorem nodup_keys_release {byInput : Index Char} (h : byInput.keys.Nodup) (input : List Char)
    (id : TransitionId) : (release byInput input id).keys.Nodup := by
  induction input generalizing byInput with
  | nil => exact h
  | cons c input ih =>
    unfold release
    rw [List.foldl_cons]
    split
    · exact ih (Index.nodup_keys_erase h c)
    · exact ih h

theorem nodup_keys_withoutTransition (h : s.byInput.keys.Nodup) (id : TransitionId) :
    (s.withoutTransition id).byInput.keys.Nodup := by
  unfold withoutTransition removeTransition?
  cases s.transition? id with
  | none => exact h
  | some t => exact nodup_keys_release h t.input id

theorem nodup_keys_foldl_withoutTransition (h : s.byInput.keys.Nodup) (ids : List TransitionId) :
    (ids.foldl withoutTransition s).byInput.keys.Nodup := by
  induction ids generalizing s with
  | nil => exact h
  | cons id ids ih => exact ih (nodup_keys_withoutTransition h id)

theorem nodup_keys_edgeEdit (h : s.byInput.keys.Nodup) (edit : EdgeEdit) :
    (edit.apply s).byInput.keys.Nodup := by
  cases edit with
  | add destination input output direction =>
    simp only [EdgeEdit.apply]
    split
    · next hadd =>
      obtain ⟨-, ⟨-, rfl⟩ | ⟨-, -, -, rfl⟩⟩ := addTransition_eq_ok_iff.mp hadd
      · exact h
      · exact Index.nodup_keys_insertAll h _ _
    · exact h
  | remove id => exact nodup_keys_withoutTransition h id
  | removeTo destination => exact nodup_keys_foldl_withoutTransition h _

theorem nodup_keys_edited (h : s.byInput.keys.Nodup) (edits : List EdgeEdit) :
    (s.edited edits).byInput.keys.Nodup := by
  induction edits generalizing s with
  | nil => exact h
  | cons edit edits ih => exact ih (nodup_keys_edgeEdit h edit)

theorem nodup_inputCharacters (h : s.byInput.keys.Nodup) : s.inputCharacters.Nodup :=
  (List.mergeSort_perm _ _).nodup_iff.mpr h

namespace Indexed

/-! ## One change -/

theorem edgeEdit (h : s.Indexed) (edit : EdgeEdit) : (edit.apply s).Indexed := by
  cases edit with
  | add destination input output direction =>
    simp only [EdgeEdit.apply]
    split
    · next hadd => exact h.addTransition (Transition.nodup_input_make _ _ _ _) hadd
    · exact h
  | remove id => exact h.withoutTransition id
  | removeTo destination => exact h.removeTransitionsTo destination

/-- A change stores one transition as the last one, under the next number, or it stores none. -/
theorem edgeEdit_cases (h : s.Indexed) (edit : EdgeEdit) :
    (edit.newId? s = none ∧ (edit.apply s).nextId = s.nextId ∧
      (edit.apply s).transitions.Sublist s.transitions) ∨
    (edit.newId? s = some s.nextId ∧ (edit.apply s).nextId = s.nextId + 1 ∧
      ∃ t, (edit.apply s).transitions = s.transitions ++ [(s.nextId, t)]) := by
  cases edit with
  | add destination input output direction =>
    simp only [EdgeEdit.apply, EdgeEdit.newId?]
    cases hadd : s.addTransition (.make destination input output direction) with
    | error e => exact .inl ⟨rfl, rfl, List.Sublist.refl _⟩
    | ok answer =>
      obtain ⟨id, u⟩ := answer
      rcases h.addTransition_eq_ok_iff.mp hadd with ⟨hmem, rfl⟩ | ⟨-, -, rfl, rfl⟩
      · have hold := h.transition?_eq_some_iff.mpr hmem
        exact .inl ⟨if_neg (by simp [hold]), rfl, List.Sublist.refl _⟩
      · have hfree : s.transition? s.nextId = none :=
          transition?_eq_none_iff.mpr fun t hmem => Nat.lt_irrefl _ (h.id_lt _ hmem)
        exact .inr ⟨if_pos hfree, rfl, _, rfl⟩
  | remove id =>
    refine .inl ⟨rfl, nextId_withoutTransition s id, ?_⟩
    show (s.withoutTransition id).transitions.Sublist s.transitions
    rw [transitions_withoutTransition]
    exact List.filter_sublist
  | removeTo destination =>
    refine .inl ⟨rfl, nextId_foldl_withoutTransition s _, ?_⟩
    show (s.removeTransitionsTo destination).transitions.Sublist s.transitions
    rw [h.transitions_removeTransitionsTo]
    exact List.filter_sublist

/-! ## Histories -/

theorem edited (h : s.Indexed) (edits : List EdgeEdit) : (s.edited edits).Indexed := by
  induction edits generalizing s with
  | nil => exact h
  | cons edit edits ih => exact ih (h.edgeEdit edit)

theorem nextId_le_edited (h : s.Indexed) (edits : List EdgeEdit) :
    s.nextId ≤ (s.edited edits).nextId := by
  induction edits generalizing s with
  | nil => exact Nat.le_refl _
  | cons edit edits ih =>
    have hrest := ih (h.edgeEdit edit)
    rcases h.edgeEdit_cases edit with ⟨-, hnext, -⟩ | ⟨-, hnext, -⟩
    · exact hnext ▸ hrest
    · rw [hnext] at hrest
      exact Nat.le_of_succ_le hrest

/-- Numbers are handed out in increasing order, from the next number on. -/
theorem handedOut_increase (h : s.Indexed) (edits : List EdgeEdit) :
    (s.handedOut edits).Pairwise (· < ·) ∧
      ∀ id ∈ s.handedOut edits, s.nextId ≤ id ∧ id < (s.edited edits).nextId := by
  induction edits generalizing s with
  | nil => exact ⟨List.Pairwise.nil, fun _ hid => absurd hid List.not_mem_nil⟩
  | cons edit edits ih =>
    obtain ⟨hincrease, hbounds⟩ := ih (h.edgeEdit edit)
    have hleft : s.edited (edit :: edits) = (edit.apply s).edited edits := rfl
    have hlater := (h.edgeEdit edit).nextId_le_edited edits
    unfold State.handedOut
    rw [hleft]
    rcases h.edgeEdit_cases edit with ⟨hnew, hnext, -⟩ | ⟨hnew, hnext, -⟩
    · rw [hnext] at hbounds
      rw [hnew]
      exact ⟨hincrease, hbounds⟩
    · rw [hnext] at hbounds hlater
      rw [hnew]
      refine ⟨List.pairwise_cons.mpr ⟨fun id hid => (hbounds id hid).1, hincrease⟩, ?_⟩
      intro id hid
      rcases List.mem_cons.mp hid with rfl | hid
      · exact ⟨Nat.le_refl _, hlater⟩
      · exact ⟨Nat.le_of_succ_le (hbounds id hid).1, (hbounds id hid).2⟩

/-- What is stored was there before, or a change gave it its number. -/
theorem ids_edited_sublist (h : s.Indexed) (edits : List EdgeEdit) :
    ((s.edited edits).transitions.map Prod.fst).Sublist
      (s.transitions.map Prod.fst ++ s.handedOut edits) := by
  induction edits generalizing s with
  | nil => exact List.sublist_append_left _ _
  | cons edit edits ih =>
    have hrest := ih (h.edgeEdit edit)
    unfold State.handedOut
    rcases h.edgeEdit_cases edit with ⟨hnew, -, hkept⟩ | ⟨hnew, -, t, hstored⟩
    · rw [hnew]
      exact hrest.trans ((hkept.map Prod.fst).append (List.Sublist.refl _))
    · rw [hstored, List.map_append, List.append_assoc] at hrest
      rw [hnew]
      exact hrest

theorem mem_of_mem_edited (h : s.Indexed) {edits : List EdgeEdit} {id : TransitionId}
    {t : Transition} (hid : id < s.nextId) (hmem : (id, t) ∈ (s.edited edits).transitions) :
    (id, t) ∈ s.transitions := by
  induction edits generalizing s with
  | nil => exact hmem
  | cons edit edits ih =>
    have hrest := ih (h.edgeEdit edit)
    rcases h.edgeEdit_cases edit with ⟨-, hnext, hkept⟩ | ⟨-, hnext, t', hstored⟩
    · exact hkept.subset (hrest (hnext ▸ hid) hmem)
    · have hold := hrest (hnext ▸ Nat.lt_succ_of_lt hid) hmem
      rw [hstored, List.mem_append, List.mem_singleton] at hold
      rcases hold with hold | hlast
      · exact hold
      · cases hlast
        exact absurd hid (Nat.lt_irrefl _)

/-- What a number stood for, it stands for later, or for nothing any more. -/
theorem transition?_edited (h : s.Indexed) (edits : List EdgeEdit) {id : TransitionId}
    (hid : id < s.nextId) : (s.edited edits).transition? id = s.transition? id ∨
      (s.edited edits).transition? id = none := by
  cases hfound : (s.edited edits).transition? id with
  | none => exact .inr rfl
  | some t =>
    have hold := h.mem_of_mem_edited hid (mem_of_transition? hfound)
    exact .inl (h.transition?_eq_some_iff.mpr hold).symm

end Indexed

/-- After any changes of a new state: its index is a scan of its transitions, no two of which read
the same character or are equal. Numbers increase and are never used again. An addition ends as a
scan says, and a removal by number frees the characters of what it removes. -/
theorem edited_agrees_with_scan (name : String) (edits : List EdgeEdit) :
    let s := (new name).edited edits
    let ids := (new name).handedOut edits
    (∀ c t, s.transitionFor? c = some t ↔ ∃ stored ∈ s.transitions, stored.2 = t ∧ t.reads c = true) ∧
    (∀ c, s.transitionFor? c = s.scan? c) ∧
    (∀ a ∈ s.transitions, ∀ b ∈ s.transitions, ∀ c,
      a.2.reads c = true → b.2.reads c = true → a = b) ∧
    (∀ c, c ∈ s.inputCharacters ↔ ∃ stored ∈ s.transitions, stored.2.reads c = true) ∧
    s.inputCharacters.Nodup ∧
    (∀ stored ∈ s.transitions, stored.2.input ≠ [] ∧ stored.2.input.Nodup) ∧
    (s.transitions.map Prod.snd).Nodup ∧
    (ids.Pairwise (· < ·) ∧ (s.transitions.map Prod.fst).Sublist ids ∧
      ∀ later, ∀ id ∈ ids,
        ((new name).edited (edits ++ later)).transition? id = s.transition? id ∨
          ((new name).edited (edits ++ later)).transition? id = none) ∧
    (∀ t,
      (s.addTransition t = .error .emptyInput ↔ t.input = []) ∧
      (∀ id, s.addTransition t = .ok (id, s) ↔ (id, t) ∈ s.transitions) ∧
      (∀ c, s.addTransition t = .error (.inputInUse c) ↔
        (∀ id, (id, t) ∉ s.transitions) ∧ t.input.find? s.claims = some c) ∧
      (t.input ≠ [] → t.input.find? s.claims = none →
        ∃ id u, s.addTransition t = .ok (id, u) ∧ u.transitions = s.transitions ++ [(id, t)] ∧
          ∀ old ∈ ids, old < id)) ∧
    (∀ id, (s.removeTransition? id = none ↔ ∀ t, (id, t) ∉ s.transitions) ∧
      ∀ t, (id, t) ∈ s.transitions → ∃ u, s.removeTransition? id = some (t, u) ∧
        u.transitions = s.transitions.filter (fun stored => stored.1 ≠ id) ∧
        (∀ c, u.transitionFor? c = if t.reads c = true then none else s.transitionFor? c) ∧
        ∀ c, c ∈ u.inputCharacters ↔ c ∈ s.inputCharacters ∧ t.reads c = false) := by
  intro s ids
  have hnew : (new name).Indexed := Indexed.new name
  have hs : s.Indexed := hnew.edited edits
  obtain ⟨hincrease, hbounds⟩ := hnew.handedOut_increase edits
  have hread : ∀ {t : Transition} {c : Char}, t.reads c = true ↔ c ∈ t.input := decide_eq_true_iff
  refine ⟨fun c t => ?_, hs.transitionFor?_eq_scan?, ?_, fun c => ?_, ?_, fun stored hstored => ?_,
    hs.nodup_transitions, ⟨hincrease, hnew.ids_edited_sublist edits, ?_⟩, fun t => ?_, fun id => ?_⟩
  · rw [hs.transitionFor?_eq_some_iff]
    constructor
    · rintro ⟨id, hstored, hc⟩
      exact ⟨(id, t), hstored, rfl, hread.mpr hc⟩
    · rintro ⟨⟨id, _⟩, hstored, rfl, hc⟩
      exact ⟨id, hstored, hread.mp hc⟩
  · rintro ⟨id, t⟩ ha ⟨id', t'⟩ hb c hc hc'
    obtain ⟨hid, ht⟩ := hs.eq_of_reads ha hb (hread.mp hc) (hread.mp hc')
    exact Prod.ext hid ht
  · rw [hs.mem_inputCharacters_iff, claims_eq_true_iff]
    simp only [hread]
  · exact nodup_inputCharacters (nodup_keys_edited (s := new name) List.nodup_nil edits)
  · exact ⟨hs.input_ne_nil stored hstored, hs.nodup_input stored hstored⟩
  · intro later id hid
    rw [edited_append]
    exact hs.transition?_edited later (hbounds id hid).2
  · refine ⟨addTransition_eq_emptyInput_iff, fun id => hs.addTransition_eq_ok_self_iff,
      fun c => hs.addTransition_eq_inputInUse_iff, fun hinput hfree => ?_⟩
    have hadd := hs.addTransition_eq_ok_iff.mpr (.inr ⟨hinput, hfree, rfl, rfl⟩)
    exact ⟨s.nextId, s.store t, hadd, rfl, fun old hold => (hbounds old hold).2⟩
  · refine ⟨?_, fun t hmem => ⟨s.withoutTransition id, hs.removeTransition?_of_mem hmem,
      transitions_withoutTransition s id, hs.transitionFor?_withoutTransition hmem,
      fun c => hs.mem_inputCharacters_withoutTransition hmem⟩⟩
    rw [removeTransition?_eq, Option.map_eq_none_iff]
    exact transition?_eq_none_iff

/-- A number is not used again after a removal, and an equal transition gets no number. -/
example : (new "s").handedOut [.add ⟨0, 0⟩ "ab" none .right, .remove 0,
    .add ⟨0, 0⟩ "bb" none .right, .add ⟨0, 0⟩ "b" none .right] = [0, 1] := by
  decide

end State

end HierarchicalTuring
