import HierarchicalTuring.Proofs.State.Indexed

/-! # The index of a state as a scan

* `State.scan?` and `State.claims` look a character up among the stored transitions, without an
  index. In a state whose index is right `transitionFor?` is such a scan
  (`Indexed.transitionFor?_eq_scan?`), and no two transitions are equal
  (`Indexed.nodup_transitions`).
* `addTransition_eq_emptyInput_iff`, `Indexed.addTransition_eq_inputInUse_iff` and
  `Indexed.addTransition_eq_ok_iff` say by scans how an addition ends.
* `transitions_withoutTransition` and `Indexed.transitions_removeTransitionsTo` say which transitions
  a removal leaves, and `Indexed.transitionFor?_withoutTransition` which characters it frees.
-/

set_option autoImplicit false

namespace HierarchicalTuring

namespace State

variable {s u : State} {t : Transition} {id : TransitionId} {c : Char}

/-- The first stored transition that reads a character. -/
def scan? (s : State) (c : Char) : Option Transition :=
  (s.transitions.map Prod.snd).find? fun t => t.reads c

/-- Whether some stored transition reads a character. -/
def claims (s : State) (c : Char) : Bool :=
  s.transitions.any fun stored => stored.2.reads c

theorem claims_eq_true_iff : s.claims c = true ↔ ∃ stored ∈ s.transitions, c ∈ stored.2.input := by
  simp [claims, Transition.reads]

namespace Indexed

/-! ## Looking up -/

theorem contains_eq_claims (h : s.Indexed) (c : Char) : s.byInput.contains c = s.claims c := by
  rw [Bool.eq_iff_iff, h.contains_eq_true_iff, claims_eq_true_iff]

theorem transitionFor?_eq_scan? (h : s.Indexed) (c : Char) : s.transitionFor? c = s.scan? c := by
  cases hscan : s.scan? c with
  | none =>
    rw [h.transitionFor?_eq_none_iff]
    intro stored hstored hc
    have hnot := List.find?_eq_none.mp hscan stored.2 (List.mem_map_of_mem hstored)
    exact hnot (decide_eq_true hc)
  | some t =>
    obtain ⟨⟨id, _⟩, hstored, rfl⟩ := List.mem_map.mp (List.mem_of_find?_eq_some hscan)
    have hreads := List.find?_some hscan
    exact h.transitionFor?_eq_some_iff.mpr ⟨id, hstored, of_decide_eq_true hreads⟩

theorem mem_inputCharacters_iff (h : s.Indexed) : c ∈ s.inputCharacters ↔ s.claims c = true := by
  unfold inputCharacters
  rw [List.mem_mergeSort, Index.mem_keys_iff, h.contains_eq_claims]

theorem nodup_transitions (h : s.Indexed) : (s.transitions.map Prod.snd).Nodup := by
  have hnodup : s.transitions.Nodup :=
    List.Nodup.of_map Prod.fst (h.ids_increase.imp Nat.ne_of_lt)
  refine hnodup.map_on ?_
  rintro ⟨id, t⟩ hstored ⟨id', _⟩ hstored' rfl
  obtain ⟨c, hc⟩ := List.exists_mem_of_ne_nil t.input (h.input_ne_nil _ hstored)
  rw [(h.eq_of_reads hstored hstored' hc hc).1]

/-! ## Additions -/

theorem idOf?_eq_some_iff (h : s.Indexed) : s.idOf? t = some id ↔ (id, t) ∈ s.transitions := by
  unfold idOf?
  rw [Option.map_eq_some_iff]
  constructor
  · rintro ⟨stored, hfind, rfl⟩
    have heq : stored.2 = t := by simpa using List.find?_some hfind
    exact heq ▸ List.mem_of_find?_eq_some hfind
  · intro hmem
    obtain ⟨c, hc⟩ := List.exists_mem_of_ne_nil t.input (h.input_ne_nil _ hmem)
    refine ⟨(id, t), Store.find?_eq_some_of_unique hmem (decide_eq_true rfl) ?_, rfl⟩
    rintro ⟨id', t'⟩ hmem' heq
    -- Equal transitions read the same character, so they are one.
    have hc' : c ∈ t'.input := (of_decide_eq_true heq : t' = t) ▸ hc
    obtain ⟨rfl, rfl⟩ := h.eq_of_reads hmem' hmem hc' hc
    rfl

theorem idOf?_eq_none_iff (h : s.Indexed) :
    s.idOf? t = none ↔ ∀ id, (id, t) ∉ s.transitions := by
  rw [Option.eq_none_iff_forall_ne_some]
  exact forall_congr' fun id => not_congr h.idOf?_eq_some_iff

theorem clash?_eq_find? (h : s.Indexed) : s.clash? t = t.input.find? s.claims :=
  congrArg (fun p => t.input.find? p) (funext h.contains_eq_claims)

theorem addTransition_eq_inputInUse_iff (h : s.Indexed) :
    s.addTransition t = .error (.inputInUse c) ↔
      (∀ id, (id, t) ∉ s.transitions) ∧ t.input.find? s.claims = some c := by
  rw [← h.idOf?_eq_none_iff, ← h.clash?_eq_find?]
  unfold State.addTransition
  by_cases hinput : t.input = []
  · simp [hinput, clash?]
  · rw [if_neg hinput]
    cases s.idOf? t with
    | some id => simp
    | none => cases s.clash? t <;> simp

theorem addTransition_eq_ok_iff (h : s.Indexed) :
    s.addTransition t = .ok (id, u) ↔ (id, t) ∈ s.transitions ∧ u = s ∨
      t.input ≠ [] ∧ t.input.find? s.claims = none ∧ id = s.nextId ∧ u = s.store t := by
  rw [State.addTransition_eq_ok_iff, h.idOf?_eq_some_iff, h.idOf?_eq_none_iff, h.clash?_eq_find?]
  constructor
  · rintro ⟨hinput, hstored | ⟨-, hfree, hid, hu⟩⟩
    · exact .inl hstored
    · exact .inr ⟨hinput, hfree, hid, hu⟩
  · rintro (⟨hmem, hu⟩ | ⟨hinput, hfree, hid, hu⟩)
    · exact ⟨h.input_ne_nil _ hmem, .inl ⟨hmem, hu⟩⟩
    · refine ⟨hinput, .inr ⟨fun id hmem => ?_, hfree, hid, hu⟩⟩
      obtain ⟨c, hc⟩ := List.exists_mem_of_ne_nil t.input hinput
      exact List.find?_eq_none.mp hfree c hc (claims_eq_true_iff.mpr ⟨(id, t), hmem, hc⟩)

/-- An addition that changes nothing answers with the number of an equal transition. -/
theorem addTransition_eq_ok_self_iff (h : s.Indexed) :
    s.addTransition t = .ok (id, s) ↔ (id, t) ∈ s.transitions := by
  rw [h.addTransition_eq_ok_iff]
  constructor
  · rintro (⟨hmem, -⟩ | ⟨-, -, -, hstore⟩)
    · exact hmem
    · exact absurd (congrArg State.nextId hstore) (Nat.ne_of_lt (Nat.lt_succ_self _))
  · exact fun hmem => .inl ⟨hmem, rfl⟩

end Indexed

theorem addTransition_eq_emptyInput_iff :
    s.addTransition t = .error .emptyInput ↔ t.input = [] := by
  refine ⟨fun h => ?_, addTransition_of_input_eq_nil⟩
  by_contra hinput
  unfold addTransition at h
  rw [if_neg hinput] at h
  cases hid : s.idOf? t with
  | some id => simp [hid] at h
  | none => cases hclash : s.clash? t <;> simp [hid, hclash] at h

/-! ## Removals -/

theorem transition?_eq_none_iff : s.transition? id = none ↔ ∀ t, (id, t) ∉ s.transitions := by
  unfold transition?
  rw [Option.map_eq_none_iff, List.find?_eq_none]
  constructor
  · exact fun hnone t hmem => hnone _ hmem (decide_eq_true rfl)
  · rintro hnot ⟨id', t⟩ hmem heq
    exact hnot t (of_decide_eq_true heq ▸ hmem)

theorem removeTransition?_eq (s : State) (id : TransitionId) :
    s.removeTransition? id = (s.transition? id).map fun t => (t, s.withoutTransition id) := by
  unfold withoutTransition removeTransition?
  cases s.transition? id <;> rfl

theorem transitions_withoutTransition (s : State) (id : TransitionId) :
    (s.withoutTransition id).transitions = s.transitions.filter fun stored => stored.1 ≠ id := by
  unfold withoutTransition removeTransition?
  cases hfound : s.transition? id with
  | some t => rfl
  | none =>
    refine (List.filter_eq_self.mpr ?_).symm
    rintro ⟨id', t⟩ hstored
    refine decide_eq_true ?_
    rintro rfl
    exact transition?_eq_none_iff.mp hfound t hstored

@[simp] theorem nextId_withoutTransition (s : State) (id : TransitionId) :
    (s.withoutTransition id).nextId = s.nextId := by
  unfold withoutTransition removeTransition?
  cases s.transition? id <;> rfl

theorem transitions_foldl_withoutTransition (s : State) (ids : List TransitionId) :
    (ids.foldl withoutTransition s).transitions =
      s.transitions.filter fun stored => stored.1 ∉ ids := by
  induction ids generalizing s with
  | nil => simp
  | cons id ids ih =>
    rw [List.foldl_cons, ih, transitions_withoutTransition, List.filter_filter]
    refine List.filter_congr fun stored _ => ?_
    simp [Bool.and_comm]

theorem nextId_foldl_withoutTransition (s : State) (ids : List TransitionId) :
    (ids.foldl withoutTransition s).nextId = s.nextId := by
  induction ids generalizing s with
  | nil => rfl
  | cons id ids ih => rw [List.foldl_cons, ih, nextId_withoutTransition]

theorem removeTransitionsTo_eq_self {destination : Handle}
    (h : ∀ stored ∈ s.transitions, stored.2.destination ≠ destination) :
    s.removeTransitionsTo destination = s := by
  unfold removeTransitionsTo
  rw [List.filter_eq_nil_iff.mpr fun stored hstored => by simpa using h stored hstored]
  rfl

namespace Indexed

/-- A removal by number frees the characters of the removed transition and no others. -/
theorem transitionFor?_withoutTransition (h : s.Indexed) (hmem : (id, t) ∈ s.transitions)
    (c : Char) : (s.withoutTransition id).transitionFor? c =
      if t.reads c = true then none else s.transitionFor? c := by
  have hleft := h.withoutTransition id
  have hkept := transitions_withoutTransition s id
  by_cases hc : c ∈ t.input
  · have hreads : t.reads c = true := decide_eq_true hc
    rw [if_pos hreads, hleft.transitionFor?_eq_none_iff, hkept]
    rintro ⟨id', t'⟩ hstored' hc'
    obtain ⟨hold, hne⟩ := List.mem_filter.mp hstored'
    exact of_decide_eq_true hne (h.eq_of_reads hold hmem hc' hc).1
  · rw [if_neg (by simpa [Transition.reads] using hc)]
    refine Option.ext fun t' => ?_
    rw [hleft.transitionFor?_eq_some_iff, h.transitionFor?_eq_some_iff, hkept]
    refine exists_congr fun id' => and_congr_left fun hc' => ?_
    rw [List.mem_filter]
    refine and_iff_left_of_imp fun hstored' => decide_eq_true ?_
    rintro rfl
    exact hc (h.eq_of_id hstored' hmem ▸ hc')

theorem claims_eq_isSome (h : s.Indexed) (c : Char) : s.claims c = (s.transitionFor? c).isSome := by
  rw [Bool.eq_iff_iff, claims_eq_true_iff, Option.isSome_iff_exists]
  simp only [h.transitionFor?_eq_some_iff, Prod.exists]
  exact exists_comm

theorem claims_withoutTransition (h : s.Indexed) (hmem : (id, t) ∈ s.transitions) (c : Char) :
    (s.withoutTransition id).claims c = (s.claims c && !t.reads c) := by
  rw [(h.withoutTransition id).claims_eq_isSome, h.transitionFor?_withoutTransition hmem,
    h.claims_eq_isSome]
  cases t.reads c <;> simp

theorem removeTransition?_of_mem (h : s.Indexed) (hmem : (id, t) ∈ s.transitions) :
    s.removeTransition? id = some (t, s.withoutTransition id) := by
  rw [removeTransition?_eq, h.transition?_eq_some_iff.mpr hmem, Option.map_some]

theorem mem_inputCharacters_withoutTransition (h : s.Indexed) (hmem : (id, t) ∈ s.transitions) :
    c ∈ (s.withoutTransition id).inputCharacters ↔
      c ∈ s.inputCharacters ∧ t.reads c = false := by
  rw [(h.withoutTransition id).mem_inputCharacters_iff, h.claims_withoutTransition hmem,
    h.mem_inputCharacters_iff, Bool.and_eq_true, Bool.not_eq_true']

theorem transitions_removeTransitionsTo (h : s.Indexed) (destination : Handle) :
    (s.removeTransitionsTo destination).transitions =
      s.transitions.filter fun stored => stored.2.destination ≠ destination := by
  unfold State.removeTransitionsTo
  rw [transitions_foldl_withoutTransition]
  refine List.filter_congr ?_
  rintro ⟨id, t⟩ hstored
  rw [decide_eq_decide, not_iff_not, List.mem_map]
  constructor
  · rintro ⟨⟨_, t'⟩, hdoomed, rfl⟩
    obtain ⟨hstored', hleads⟩ := List.mem_filter.mp hdoomed
    rw [h.eq_of_id hstored hstored']
    exact of_decide_eq_true hleads
  · exact fun hleads => ⟨(id, t), List.mem_filter.mpr ⟨hstored, decide_eq_true hleads⟩, rfl⟩

end Indexed

end State

end HierarchicalTuring
