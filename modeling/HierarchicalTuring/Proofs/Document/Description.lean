import HierarchicalTuring.Proofs.Document.Building
import HierarchicalTuring.Proofs.Document.Valid

/-! # Descriptions of machines

* `Machine.description? m name` is the description of the state with a name, and a document of the
  machine holds exactly these (`WellFormed.find?_toDocument`). `Machine.HasStates` says that a
  machine has the states that some descriptions name.
* Distinct transitions have distinct descriptions (`WellFormed.describe?_inj`), and a transition
  made from a description has the normal form of it (`describe?_toTransition`).
* A described transition that the description of its state admits can be added, and changes that
  description only (`WellFormed.addDescribed_ok`).
-/

set_option autoImplicit false

namespace HierarchicalTuring

theorem TransitionDocument.writes_eq_ok_iff {t : TransitionDocument} {state : String}
    {output : Option Char} :
    t.writes state = .ok output ↔ t.output = output.map String.singleton := by
  constructor
  · intro h
    unfold writes at h
    split at h
    · next hnone =>
      cases h
      exact hnone
    next text htext =>
    split at h
    · next c hc =>
      cases h
      rw [htext, singleChar?_eq_some_iff.mp hc]
      rfl
    · cases h
  · intro h
    cases output with
    | none => simp only [writes, h, Option.map_none]
    | some c =>
      have hc : singleChar? (String.singleton c) = some c := singleChar?_eq_some_iff.mpr rfl
      simp only [writes, h, Option.map_some, hc]

theorem TransitionDocument.exists_writes_iff {t : TransitionDocument} {state : String} :
    (∃ output, t.writes state = .ok output) ↔
      ∀ text, t.output = some text → ∃ c, text = String.singleton c := by
  simp only [writes_eq_ok_iff]
  constructor
  · rintro ⟨output, houtput⟩ text htext
    rw [htext] at houtput
    obtain ⟨c, -, hc⟩ := Option.map_eq_some_iff.mp houtput.symm
    exact ⟨c, hc.symm⟩
  · intro h
    cases htext : t.output with
    | none => exact ⟨none, rfl⟩
    | some text =>
      obtain ⟨c, rfl⟩ := h text htext
      exact ⟨some c, rfl⟩

namespace Machine

variable {m : Machine}

/-! ## Describing transitions -/

theorem describe?_eq_some_iff {t : Transition} {d : TransitionDocument} :
    m.describe? t = some d ↔ ∃ s, m.stateAt? t.destination = some s ∧ d =
      { destination := s.name
        input := String.ofList t.input
        output := t.output.map String.singleton
        move := String.singleton t.direction.code } := by
  unfold describe?
  cases m.stateAt? t.destination with
  | none => simp
  | some s => simp [eq_comm]

theorem input_of_describe? {t : Transition} {d : TransitionDocument} (h : m.describe? t = some d) :
    d.input.toList = t.input := by
  obtain ⟨s, -, rfl⟩ := describe?_eq_some_iff.mp h
  exact String.toList_ofList

/-- Only the names of the states count for a description. -/
theorem describe?_congr {m' : Machine}
    (h : ∀ handle, (m'.stateAt? handle).map State.name = (m.stateAt? handle).map State.name) :
    m'.describe? = m.describe? := by
  funext t
  have hname := h t.destination
  unfold describe?
  cases hstate : m.stateAt? t.destination with
  | none =>
    rw [hstate, Option.map_none, Option.map_eq_none_iff] at hname
    rw [hname]
  | some s =>
    rw [hstate, Option.map_some, Option.map_eq_some_iff] at hname
    obtain ⟨s', hs', hname⟩ := hname
    rw [hs']
    simp [hname]

theorem Closed.exists_describe? (hclosed : m.Closed) {s : State} (hs : s ∈ m.states.live)
    {stored : TransitionId × Transition} (hstored : stored ∈ s.transitions) :
    ∃ d, m.describe? stored.2 = some d := by
  obtain ⟨destination, hdestination⟩ := Option.isSome_iff_exists.mp (hclosed s hs stored hstored)
  exact ⟨_, describe?_eq_some_iff.mpr ⟨destination, hdestination, rfl⟩⟩

/-- Transitions of one description, of one machine or of two, differ in their handles at most. -/
theorem fields_of_describe? {m' : Machine} {t u : Transition} {d : TransitionDocument}
    (ht : m.describe? t = some d) (hu : m'.describe? u = some d) :
    (∃ a b, m.stateAt? t.destination = some a ∧ m'.stateAt? u.destination = some b ∧
      a.name = b.name) ∧ t.input = u.input ∧ t.output = u.output ∧ t.direction = u.direction := by
  obtain ⟨a, ha, rfl⟩ := describe?_eq_some_iff.mp ht
  obtain ⟨b, hb, heq⟩ := describe?_eq_some_iff.mp hu
  simp only [TransitionDocument.mk.injEq] at heq
  obtain ⟨hname, hinput, houtput, hmove⟩ := heq
  refine ⟨⟨a, b, ha, hb, hname⟩, String.ofList_injective hinput, ?_, ?_⟩
  · have hinjective : Function.Injective String.singleton :=
      fun c c' hc => by simpa using congrArg String.toList hc
    exact Option.map_injective hinjective houtput
  · have hcode := congrArg Direction.ofCode? hmove
    rw [Direction.ofCode?_code, Direction.ofCode?_code] at hcode
    exact Option.some.inj hcode

theorem WellFormed.describe?_inj (hm : m.WellFormed) {t u : Transition} {d : TransitionDocument}
    (ht : m.describe? t = some d) (hu : m.describe? u = some d) : t = u := by
  obtain ⟨⟨a, b, ha, hb, hname⟩, hinput, houtput, hdirection⟩ := fields_of_describe? ht hu
  have hdestination : t.destination = u.destination := by
    have hhandle := hm.stateHandle?_eq_some_iff.mpr ⟨a, ha, hname⟩
    rw [hm.stateHandle?_eq_some_iff.mpr ⟨b, hb, rfl⟩] at hhandle
    exact (Option.some.inj hhandle).symm
  cases t
  cases u
  cases hdestination
  cases hinput
  cases houtput
  cases hdirection
  rfl

/-- A transition made from a description has the normal form of that description. -/
theorem WellFormed.describe?_toTransition (hm : m.WellFormed) {t : TransitionDocument}
    {state : String} {transition : Transition} (h : t.toTransition m state = .ok transition) :
    m.describe? transition = some t.normal := by
  obtain ⟨handle, output, direction, hhandle, houtput, hdirection, rfl⟩ :=
    TransitionDocument.toTransition_eq_ok_iff.mp h
  obtain ⟨s, hs, hname⟩ := hm.stateHandle?_eq_some_iff.mp hhandle
  refine describe?_eq_some_iff.mpr ⟨s, hs, ?_⟩
  rw [TransitionDocument.normal, hname, TransitionDocument.writes_eq_ok_iff.mp houtput,
    Direction.ofCode?_eq_some_iff.mp hdirection]
  rfl

/-! ## Describing states -/

theorem mem_transitions_describeState {s : State} {d : TransitionDocument} :
    d ∈ (m.describeState s).transitions ↔
      ∃ stored ∈ s.transitions, m.describe? stored.2 = some d :=
  List.mem_filterMap

/-- The description of the state with a name. -/
def description? (m : Machine) (name : String) : Option StateDocument :=
  (m.state? name).map m.describeState

theorem WellFormed.description?_eq_some_iff (hm : m.WellFormed) {name : String}
    {d : StateDocument} : m.description? name = some d ↔
      ∃ s ∈ m.states.live, s.name = name ∧ m.describeState s = d := by
  unfold description?
  simp only [Option.map_eq_some_iff, hm.state?_eq_some_iff, and_assoc]

theorem WellFormed.find?_toDocument (hm : m.WellFormed) (name : String) :
    m.toDocument.states.find? name = m.description? name := by
  have hnodup : ((m.states.live.map fun s => (s.name, m.describeState s)).map Prod.fst).Nodup := by
    rw [List.map_map]
    exact hm.indexed.nodup_names
  refine Option.ext fun d => ?_
  rw [toDocument, NameMap.find?_ofList_eq_some_iff hnodup, hm.description?_eq_some_iff,
    List.mem_map]
  simp only [Prod.mk.injEq]

/-- The states of the machine are those that are described. -/
def HasStates (m : Machine) (states : NameMap StateDocument) : Prop :=
  ∀ name, (m.description? name).isSome = (states.find? name).isSome

theorem HasStates.exists_description? {states : NameMap StateDocument} (h : m.HasStates states)
    {name : String} {d : StateDocument} (hd : states.find? name = some d) :
    ∃ e, m.description? name = some e := by
  rw [← Option.isSome_iff_exists, h name, hd]
  rfl

/-- Changing one description changes nothing about which states there are. -/
theorem HasStates.update {m' : Machine} {states : NameMap StateDocument} (h : m.HasStates states)
    {state : String} {d d' : StateDocument} (hd : m.description? state = some d)
    (hm' : ∀ name, m'.description? name =
      if name = state then some d' else m.description? name) : m'.HasStates states := by
  intro name
  rw [hm', ← h name]
  split
  · next hname =>
    rw [hname, hd]
    rfl
  · rfl

/-- Replacing a state by one of the same name changes one description. -/
theorem WellFormed.description?_put (hm : m.WellFormed) {slot : Nat} {s changed : State}
    (hslot : m.states.slot? slot = some s) (hname : changed.name = s.name) (name : String) :
    description? { m with states := m.states.put slot changed } name =
      if name = s.name then some (m.describeState changed) else m.description? name := by
  have hdescribe : describe? { m with states := m.states.put slot changed } = m.describe? :=
    describe?_congr fun handle => Store.name_resolve?_put hslot hname handle
  have hput : state? { m with states := m.states.put slot changed } name =
      if name = s.name then some changed else m.state? name :=
    hm.indexed.get?_put hslot changed name
  have hstate : describeState { m with states := m.states.put slot changed } = m.describeState := by
    funext state
    rw [describeState, describeState, hdescribe]
  rw [description?, hput, hstate]
  split
  · rfl
  · rfl

/-! ## Adding described transitions -/

theorem describeState_store {s : State} {t : Transition} {d : TransitionDocument}
    (h : m.describe? t = some d) : m.describeState (s.store t) =
      { m.describeState s with transitions := (m.describeState s).transitions ++ [d] } := by
  simp [describeState, State.store, List.filterMap_append, h]

/-- An admitted transition is added to the state, or found there. -/
theorem WellFormed.addTransition_ok (hm : m.WellFormed) (hclosed : m.Closed) {s : State}
    (hs : s ∈ m.states.live) {t : TransitionDocument} {state : String} {transition : Transition}
    (htransition : t.toTransition m state = .ok transition) (hinput : t.input.toList ≠ [])
    (hadmits : (m.describeState s).Admits t) :
    ∃ id changed, s.addTransition transition = .ok (id, changed) ∧
      m.describeState changed = (m.describeState s).add t := by
  have hdescribe := hm.describe?_toTransition htransition
  have hne : transition.input ≠ [] := by
    rw [← input_of_describe? hdescribe, TransitionDocument.normal, String.toList_ofList]
    exact firstOccurrences_ne_nil hinput
  by_cases hmem : t.normal ∈ (m.describeState s).transitions
  · obtain ⟨⟨id, stored⟩, hstored, hd⟩ := mem_transitions_describeState.mp hmem
    have hsame : stored = transition := hm.describe?_inj hd hdescribe
    obtain ⟨found, hadd⟩ := State.addTransition_of_mem hne (hsame ▸ hstored)
    exact ⟨found, s, hadd, (if_pos hmem).symm⟩
  · have hapart := hadmits.resolve_left hmem
    refine ⟨s.nextId, s.store transition, (hm.live s hs).addTransition_of_apart hne ?_, ?_⟩
    · intro stored hstored c hc hread
      obtain ⟨d, hd⟩ := hclosed.exists_describe? hs hstored
      rw [← input_of_describe? hdescribe, TransitionDocument.mem_input_normal] at hc
      rw [← input_of_describe? hd] at hread
      exact hapart d (mem_transitions_describeState.mpr ⟨stored, hstored, hd⟩) c hc hread
    · rw [describeState_store hdescribe]
      exact (if_neg hmem).symm

theorem WellFormed.addDescribed_ok (hm : m.WellFormed) (hclosed : m.Closed) {state : String}
    {d : StateDocument} (hd : m.description? state = some d) {t : TransitionDocument}
    {transition : Transition} (htransition : t.toTransition m state = .ok transition)
    (hinput : t.input.toList ≠ []) (hadmits : d.Admits t) :
    ∃ u, m.addDescribed state t = .ok u ∧ ∀ name, u.description? name =
      if name = state then some (d.add t) else m.description? name := by
  obtain ⟨s, hstate, rfl⟩ := Option.map_eq_some_iff.mp hd
  obtain ⟨hs, hname⟩ := hm.state?_eq_some_iff.mp hstate
  obtain ⟨id, changed, hadd, hdescribe⟩ :=
    hm.addTransition_ok hclosed hs htransition hinput hadmits
  have hsame := (State.fields_of_addTransition hadd).1
  have hnodup : transition.input.Nodup := by
    obtain ⟨_, _, _, -, -, -, rfl⟩ := TransitionDocument.toTransition_eq_ok_iff.mp htransition
    exact Transition.nodup_input_make _ _ _ _
  obtain ⟨slot, hslot, hmodify, -⟩ :=
    hm.replaceState hstate hsame ((hm.live s hs).addTransition hnodup hadd)
  refine ⟨{ m with states := m.states.put slot changed }, ?_, fun name => ?_⟩
  · unfold addDescribed
    rw [htransition]
    simp only [bind, Except.bind, hstate, hadd, hmodify]
    rfl
  · rw [hm.description?_put hslot hsame, hname, hdescribe]

end Machine

end HierarchicalTuring
