import HierarchicalTuring.Proofs.Store.Indexed
import HierarchicalTuring.State

/-! # States whose character index is right

* `State.Indexed`: numbers increase and stay below the next one, the index maps a character to a
  number exactly when the transition of that number reads it, and every input is a text without
  repetition that is not empty.
* Every change of a state keeps it so (`Indexed.store`, `Indexed.addTransition`,
  `Indexed.withoutTransition`, `Indexed.removeTransitionsTo`).
* In such a state `transitionFor?` is a scan (`Indexed.transitionFor?_eq_some_iff`,
  `Indexed.transitionFor?_eq_none_iff`), and no two transitions read the same character
  (`Indexed.eq_of_reads`).
-/

set_option autoImplicit false

namespace HierarchicalTuring

theorem Index.find?_insertAll {κ : Type} [DecidableEq κ] (index : Index κ) (keys : List κ)
    (value : Nat) (other : κ) :
    (index.insertAll keys value).find? other =
      if other ∈ keys then some value else index.find? other := by
  induction keys generalizing index with
  | nil => rfl
  | cons key keys ih =>
    have hcons : index.insertAll (key :: keys) value =
        (index.insert key value).insertAll keys value :=
      rfl
    rw [hcons, ih, find?_insert]
    by_cases hkeys : other ∈ keys
    · simp [hkeys]
    · by_cases hkey : other = key <;> simp [hkeys, hkey]

namespace State

theorem find?_release (byInput : Index Char) (input : List Char) (id : TransitionId) (c : Char) :
    (release byInput input id).find? c =
      if c ∈ input ∧ byInput.find? c = some id then none else byInput.find? c := by
  induction input generalizing byInput with
  | nil => simp [release]
  | cons first rest ih =>
    have hcons : release byInput (first :: rest) id =
        release (if byInput.find? first = some id then byInput.erase first else byInput) rest id :=
      rfl
    rw [hcons, ih]
    by_cases hfirst : byInput.find? first = some id
    · rw [if_pos hfirst, Index.find?_erase]
      by_cases hc : c = first
      · subst hc
        simp [hfirst]
      · simp [hc]
    · rw [if_neg hfirst]
      by_cases hc : c = first
      · subst hc
        simp [hfirst]
      · simp [hc]

/-- The index of a state agrees with its transitions. -/
structure Indexed (s : State) : Prop where
  ids_increase : (s.transitions.map Prod.fst).Pairwise (· < ·)
  id_lt : ∀ stored ∈ s.transitions, stored.1 < s.nextId
  find?_eq_some_iff : ∀ c id, s.byInput.find? c = some id ↔
    ∃ t, (id, t) ∈ s.transitions ∧ c ∈ t.input
  input_ne_nil : ∀ stored ∈ s.transitions, stored.2.input ≠ []
  nodup_input : ∀ stored ∈ s.transitions, stored.2.input.Nodup

/-! ## Looking up transitions -/

theorem mem_of_transition? {s : State} {id : TransitionId} {t : Transition}
    (h : s.transition? id = some t) : (id, t) ∈ s.transitions := by
  unfold transition? at h
  rw [Option.map_eq_some_iff] at h
  obtain ⟨⟨id', t'⟩, hfind, rfl⟩ := h
  have hid : id' = id := by simpa using List.find?_some hfind
  exact hid ▸ List.mem_of_find?_eq_some hfind

theorem mem_of_transitionFor? {s : State} {c : Char} {t : Transition}
    (h : s.transitionFor? c = some t) : ∃ id, (id, t) ∈ s.transitions := by
  unfold transitionFor? at h
  rw [Option.bind_eq_some_iff] at h
  obtain ⟨id, -, hid⟩ := h
  exact ⟨id, mem_of_transition? hid⟩

/-- Adding a transition changes nothing else about a state. -/
theorem fields_of_addTransition {s u : State} {t : Transition} {id : TransitionId}
    (h : s.addTransition t = .ok (id, u)) :
    u.name = s.name ∧ u.accepting = s.accepting ∧ u.submachine = s.submachine ∧
      u.position = s.position := by
  obtain ⟨-, ⟨-, rfl⟩ | ⟨-, -, -, rfl⟩⟩ := addTransition_eq_ok_iff.mp h
  · exact ⟨rfl, rfl, rfl, rfl⟩
  · exact ⟨rfl, rfl, rfl, rfl⟩

/-- Adding a transition that is there already changes nothing. -/
theorem addTransition_of_mem {s : State} {t : Transition} {id : TransitionId}
    (hne : t.input ≠ []) (hmem : (id, t) ∈ s.transitions) :
    ∃ found, s.addTransition t = .ok (found, s) := by
  have hsome : (s.idOf? t).isSome = true := by
    unfold idOf?
    rw [Option.isSome_map, List.find?_isSome]
    exact ⟨(id, t), hmem, by simp⟩
  obtain ⟨found, hfound⟩ := Option.isSome_iff_exists.mp hsome
  exact ⟨found, addTransition_eq_ok_iff.mpr ⟨hne, .inl ⟨hfound, rfl⟩⟩⟩

namespace Indexed

variable {s : State} {t t' : Transition} {id id' : TransitionId} {c : Char}

theorem eq_of_id (h : s.Indexed) (hmem : (id, t) ∈ s.transitions)
    (hmem' : (id, t') ∈ s.transitions) : t = t' := by
  have hnodup : (s.transitions.map Prod.fst).Nodup := h.ids_increase.imp Nat.ne_of_lt
  exact congrArg Prod.snd (List.inj_on_of_nodup_map hnodup hmem hmem' rfl)

theorem transition?_eq_some_iff (h : s.Indexed) :
    s.transition? id = some t ↔ (id, t) ∈ s.transitions := by
  refine ⟨mem_of_transition?, fun hmem => ?_⟩
  have hsome : (s.transition? id).isSome = true := by
    unfold transition?
    rw [Option.isSome_map, List.find?_isSome]
    exact ⟨(id, t), hmem, by simp⟩
  obtain ⟨t', ht'⟩ := Option.isSome_iff_exists.mp hsome
  rw [ht', h.eq_of_id hmem (mem_of_transition? ht')]

theorem transitionFor?_eq_some_iff (h : s.Indexed) :
    s.transitionFor? c = some t ↔ ∃ id, (id, t) ∈ s.transitions ∧ c ∈ t.input := by
  unfold transitionFor?
  rw [Option.bind_eq_some_iff]
  constructor
  · rintro ⟨id, hfind, hid⟩
    obtain ⟨t', hmem, hc⟩ := (h.find?_eq_some_iff c id).mp hfind
    have hmem' := mem_of_transition? hid
    exact ⟨id, hmem', h.eq_of_id hmem hmem' ▸ hc⟩
  · rintro ⟨id, hmem, hc⟩
    exact ⟨id, (h.find?_eq_some_iff c id).mpr ⟨t, hmem, hc⟩, h.transition?_eq_some_iff.mpr hmem⟩

theorem transitionFor?_eq_none_iff (h : s.Indexed) :
    s.transitionFor? c = none ↔ ∀ stored ∈ s.transitions, c ∉ stored.2.input := by
  rw [Option.eq_none_iff_forall_ne_some]
  constructor
  · rintro hnone ⟨id, t⟩ hmem hc
    exact hnone t (h.transitionFor?_eq_some_iff.mpr ⟨id, hmem, hc⟩)
  · intro hall t ht
    obtain ⟨id, hmem, hc⟩ := h.transitionFor?_eq_some_iff.mp ht
    exact hall (id, t) hmem hc

theorem eq_of_reads (h : s.Indexed) (hmem : (id, t) ∈ s.transitions)
    (hmem' : (id', t') ∈ s.transitions) (hc : c ∈ t.input) (hc' : c ∈ t'.input) :
    id = id' ∧ t = t' := by
  have hfind := (h.find?_eq_some_iff c id).mpr ⟨t, hmem, hc⟩
  rw [(h.find?_eq_some_iff c id').mpr ⟨t', hmem', hc'⟩] at hfind
  cases hfind
  exact ⟨rfl, h.eq_of_id hmem hmem'⟩

theorem contains_eq_true_iff (h : s.Indexed) :
    s.byInput.contains c = true ↔ ∃ stored ∈ s.transitions, c ∈ stored.2.input := by
  unfold Index.contains
  rw [Option.isSome_iff_exists]
  constructor
  · rintro ⟨id, hfind⟩
    obtain ⟨t, hmem, hc⟩ := (h.find?_eq_some_iff c id).mp hfind
    exact ⟨(id, t), hmem, hc⟩
  · rintro ⟨⟨id, t⟩, hmem, hc⟩
    exact ⟨id, (h.find?_eq_some_iff c id).mpr ⟨t, hmem, hc⟩⟩

theorem clash?_eq_none_iff (h : s.Indexed) :
    s.clash? t = none ↔ ∀ stored ∈ s.transitions, ∀ c ∈ t.input, c ∉ stored.2.input := by
  unfold clash?
  rw [List.find?_eq_none]
  simp only [h.contains_eq_true_iff, not_exists, not_and]
  exact ⟨fun hall stored hmem c hc => hall c hc stored hmem,
    fun hall c hc stored hmem => hall stored hmem c hc⟩

/-! ## Changes -/

theorem new (name : String) : (State.new name).Indexed where
  ids_increase := List.Pairwise.nil
  id_lt := fun _ h => absurd h List.not_mem_nil
  find?_eq_some_iff := by simp [State.new]
  input_ne_nil := fun _ h => absurd h List.not_mem_nil
  nodup_input := fun _ h => absurd h List.not_mem_nil

/-- Only the transitions, their index and the next number matter. -/
theorem congr {u : State} (h : s.Indexed) (htransitions : u.transitions = s.transitions)
    (hbyInput : u.byInput = s.byInput) (hnextId : u.nextId = s.nextId) : u.Indexed where
  ids_increase := htransitions ▸ h.ids_increase
  id_lt := htransitions ▸ hnextId ▸ h.id_lt
  find?_eq_some_iff := htransitions ▸ hbyInput ▸ h.find?_eq_some_iff
  input_ne_nil := htransitions ▸ h.input_ne_nil
  nodup_input := htransitions ▸ h.nodup_input

theorem store (h : s.Indexed) (hne : t.input ≠ []) (hnodup : t.input.Nodup)
    (hclash : s.clash? t = none) : (s.store t).Indexed where
  ids_increase := by
    show ((s.transitions ++ [(s.nextId, t)]).map Prod.fst).Pairwise (· < ·)
    rw [List.map_append, List.pairwise_append]
    refine ⟨h.ids_increase, List.pairwise_singleton _ _, ?_⟩
    intro id hid id' hid'
    obtain ⟨stored, hstored, rfl⟩ := List.mem_map.mp hid
    have hlt := h.id_lt stored hstored
    simpa using (List.mem_singleton.mp hid') ▸ hlt
  id_lt := by
    intro stored hstored
    show stored.1 < s.nextId + 1
    rcases List.mem_append.mp hstored with hold | hnew
    · exact Nat.lt_succ_of_lt (h.id_lt stored hold)
    · rw [List.mem_singleton.mp hnew]
      exact Nat.lt_succ_self s.nextId
  find?_eq_some_iff := by
    intro c id
    show (s.byInput.insertAll t.input s.nextId).find? c = some id ↔ _
    rw [Index.find?_insertAll]
    constructor
    · intro hfind
      split at hfind
      · next hc =>
        cases hfind
        exact ⟨t, List.mem_append_right _ (List.mem_singleton_self _), hc⟩
      · obtain ⟨t', hmem, hc⟩ := (h.find?_eq_some_iff c id).mp hfind
        exact ⟨t', List.mem_append_left _ hmem, hc⟩
    · rintro ⟨t', hmem, hc⟩
      rcases List.mem_append.mp hmem with hold | hnew
      · rw [if_neg fun hread => h.clash?_eq_none_iff.mp hclash _ hold c hread hc]
        exact (h.find?_eq_some_iff c id).mpr ⟨t', hold, hc⟩
      · cases List.mem_singleton.mp hnew
        rw [if_pos hc]
  input_ne_nil := by
    intro stored hstored
    rcases List.mem_append.mp hstored with hold | hnew
    · exact h.input_ne_nil stored hold
    · rw [List.mem_singleton.mp hnew]
      exact hne
  nodup_input := by
    intro stored hstored
    rcases List.mem_append.mp hstored with hold | hnew
    · exact h.nodup_input stored hold
    · rw [List.mem_singleton.mp hnew]
      exact hnodup

theorem addTransition (h : s.Indexed) (hnodup : t.input.Nodup) {u : State}
    (hadd : s.addTransition t = .ok (id, u)) : u.Indexed := by
  obtain ⟨hne, ⟨-, rfl⟩ | ⟨-, hclash, -, rfl⟩⟩ := addTransition_eq_ok_iff.mp hadd
  · exact h
  · exact h.store hne hnodup hclash

theorem addTransition_of_apart (h : s.Indexed) (hne : t.input ≠ [])
    (hapart : ∀ stored ∈ s.transitions, ∀ c ∈ t.input, c ∉ stored.2.input) :
    s.addTransition t = .ok (s.nextId, s.store t) := by
  obtain ⟨c, hc⟩ := List.exists_mem_of_ne_nil t.input hne
  have hid : s.idOf? t = none := by
    unfold idOf?
    rw [Option.map_eq_none_iff, List.find?_eq_none]
    intro stored hstored heq
    exact hapart stored hstored c hc ((of_decide_eq_true heq).symm ▸ hc)
  exact addTransition_eq_ok_iff.mpr
    ⟨hne, .inr ⟨hid, h.clash?_eq_none_iff.mpr hapart, rfl, rfl⟩⟩

theorem withoutTransition (h : s.Indexed) (id : TransitionId) :
    (s.withoutTransition id).Indexed := by
  unfold State.withoutTransition removeTransition?
  cases htransition : s.transition? id with
  | none => exact h
  | some t =>
    have hmem := mem_of_transition? htransition
    have hsub : (s.transitions.filter fun stored => stored.1 ≠ id).Sublist s.transitions :=
      List.filter_sublist
    refine ⟨h.ids_increase.sublist (hsub.map Prod.fst), fun stored hstored =>
      h.id_lt stored (hsub.subset hstored), fun c id' => ?_, fun stored hstored =>
      h.input_ne_nil stored (hsub.subset hstored), fun stored hstored =>
      h.nodup_input stored (hsub.subset hstored)⟩
    show (release s.byInput t.input id).find? c = some id' ↔
      ∃ t', (id', t') ∈ s.transitions.filter (fun stored => stored.1 ≠ id) ∧ c ∈ t'.input
    rw [find?_release]
    constructor
    · intro hfind
      split at hfind
      · cases hfind
      next hkeep =>
      obtain ⟨t', hmem', hc⟩ := (h.find?_eq_some_iff c id').mp hfind
      refine ⟨t', List.mem_filter.mpr ⟨hmem', ?_⟩, hc⟩
      rw [decide_eq_true_eq]
      rintro rfl
      exact hkeep ⟨h.eq_of_id hmem' hmem ▸ hc, hfind⟩
    · rintro ⟨t', hmem', hc⟩
      obtain ⟨hold, hne⟩ := List.mem_filter.mp hmem'
      have hfind := (h.find?_eq_some_iff c id').mpr ⟨t', hold, hc⟩
      rw [if_neg, hfind]
      rintro ⟨-, hfind'⟩
      rw [hfind] at hfind'
      cases hfind'
      simp at hne

theorem foldl_withoutTransition (h : s.Indexed) (ids : List TransitionId) :
    (ids.foldl State.withoutTransition s).Indexed := by
  induction ids generalizing s with
  | nil => exact h
  | cons id ids ih => exact ih (h.withoutTransition id)

theorem removeTransitionsTo (h : s.Indexed) (destination : Handle) :
    (s.removeTransitionsTo destination).Indexed :=
  h.foldl_withoutTransition _

end Indexed

end State

end HierarchicalTuring
