import HierarchicalTuring.Document.Project
import HierarchicalTuring.Proofs.Project.WellFormed

/-! # What documents build

* `toTransition_eq_ok_iff`: a described transition leads to a state of the machine, writes one
  character or none, and has one of the three moves.
* `Machine.ofDocument_keeps`: a machine that a document builds has the described name, and is
  well-formed and closed.
* `Project.ofDocuments_keeps`: so is every project that documents build.
-/

set_option autoImplicit false

namespace HierarchicalTuring

theorem TransitionDocument.toTransition_eq_ok_iff {t : TransitionDocument} {m : Machine}
    {state : String} {transition : Transition} :
    t.toTransition m state = .ok transition ↔ ∃ h output direction,
      m.stateHandle? t.destination = some h ∧ t.writes state = .ok output ∧
      Direction.ofCode? t.move = some direction ∧
      transition = .make h t.input output direction := by
  unfold toTransition
  cases hhandle : m.stateHandle? t.destination with
  | none => simp
  | some h =>
    simp only [Option.some.injEq, exists_and_left, exists_eq_left']
    rw [bind_eq_ok_iff]
    cases hdirection : Direction.ofCode? t.move with
    | none => simp
    | some direction =>
      simp only [pure, Except.pure, Except.ok.injEq, Option.some.injEq, exists_eq_left']
      exact exists_congr fun output => and_congr_right fun _ => eq_comm

theorem StateDocument.indexed_toState (d : StateDocument) (name : String) :
    (d.toState name).Indexed :=
  (State.Indexed.new name).congr rfl rfl rfl

namespace State

theorem mem_transitions_of_addTransition {s u : State} {t : Transition} {id : TransitionId}
    (h : s.addTransition t = .ok (id, u)) {stored : TransitionId × Transition}
    (hstored : stored ∈ u.transitions) : stored ∈ s.transitions ∨ stored.2 = t := by
  obtain ⟨-, ⟨-, rfl⟩ | ⟨-, -, -, rfl⟩⟩ := addTransition_eq_ok_iff.mp h
  · exact .inl hstored
  · rcases List.mem_append.mp hstored with hold | hnew
    · exact .inl hold
    · exact .inr (congrArg Prod.snd (List.mem_singleton.mp hnew))

end State

namespace Machine

variable {m m' : Machine}

theorem WellFormed.closed_put (hm : m.Closed) {slot : Nat} {state changed : State}
    (hslot : m.states.slot? slot = some state)
    (hchanged : ∀ stored ∈ changed.transitions, (m.stateAt? stored.2.destination).isSome = true) :
    Closed { m with states := m.states.put slot changed } := by
  intro other hother stored hstored
  have hsame := Store.isSome_resolve?_put hslot changed stored.2.destination
  refine Eq.trans hsame ?_
  rcases Store.mem_live_put (Store.slot?_lt hslot) hother with rfl | hold
  · exact hchanged stored hstored
  · exact hm other hold stored hstored

theorem addDescribed_keeps (hm : m.WellFormed) (hclosed : m.Closed) {state : String}
    {t : TransitionDocument} (h : m.addDescribed state t = .ok m') :
    m'.name = m.name ∧ m'.WellFormed ∧ m'.Closed := by
  unfold addDescribed at h
  obtain ⟨transition, htransition, hrest⟩ := bind_eq_ok_iff.mp h
  split at hrest
  · cases hrest
  next source hsource =>
  split at hrest
  · cases hrest
  next id changed hadd =>
  cases hrest
  obtain ⟨handle, output, direction, hhandle, -, -, rfl⟩ :=
    TransitionDocument.toTransition_eq_ok_iff.mp htransition
  have hlive := (hm.state?_eq_some_iff.mp hsource).1
  obtain ⟨slot, hslot, hmodify, hwf⟩ := hm.replaceState hsource
    (State.fields_of_addTransition hadd).1
    ((hm.live source hlive).addTransition (Transition.nodup_input_make _ _ _ _) hadd)
  rw [hmodify]
  refine ⟨rfl, hwf, WellFormed.closed_put hclosed hslot fun stored hstored => ?_⟩
  rcases State.mem_transitions_of_addTransition hadd hstored with hold | hnew
  · exact hclosed source hlive stored hold
  · obtain ⟨destination, hdestination, -⟩ := hm.stateHandle?_eq_some_iff.mp hhandle
    rw [hnew]
    exact Option.isSome_iff_exists.mpr ⟨destination, hdestination⟩

theorem insertState_keeps (hm : m.WellFormed) (hclosed : m.Closed) {state : State}
    (hstate : state.Indexed) (hnone : state.transitions = []) {h : Handle}
    (hinsert : m.insertState state = .ok (h, m')) :
    m'.name = m.name ∧ m'.WellFormed ∧ m'.Closed := by
  have hwf := hm.insertState hstate hinsert
  obtain ⟨⟨h', states⟩, hadd, hm'⟩ := bind_eq_ok_iff.mp hinsert
  cases hm'
  refine ⟨rfl, hwf, fun other hother stored hstored => ?_⟩
  rw [Store.live_add hadd] at hother
  rcases List.mem_append.mp hother with hold | hnew
  · obtain ⟨destination, hdestination⟩ :=
      Option.isSome_iff_exists.mp (hclosed other hold stored hstored)
    exact Option.isSome_iff_exists.mpr ⟨destination, Store.resolve?_add hadd hdestination⟩
  · rw [List.mem_singleton.mp hnew, hnone] at hstored
    cases hstored

theorem addStates_keeps (hm : m.WellFormed) (hclosed : m.Closed)
    {states : List (String × StateDocument)} (h : m.addStates states = .ok m') :
    m'.name = m.name ∧ m'.WellFormed ∧ m'.Closed := by
  refine foldlM_keeps (P := fun u => u.name = m.name ∧ u.WellFormed ∧ u.Closed) ?_ h
    ⟨rfl, hm, hclosed⟩
  rintro u v entry - ⟨hname, hu, huclosed⟩ hinsert
  split at hinsert
  · cases hinsert
  next w hinsert' =>
  cases hinsert
  obtain ⟨hname', hkeeps⟩ :=
    insertState_keeps hu huclosed (entry.2.indexed_toState entry.1) rfl hinsert'
  exact ⟨hname'.trans hname, hkeeps⟩

theorem addTransitions_keeps (hm : m.WellFormed) (hclosed : m.Closed)
    {states : List (String × StateDocument)} (h : m.addTransitions states = .ok m') :
    m'.name = m.name ∧ m'.WellFormed ∧ m'.Closed := by
  refine foldlM_keeps (P := fun u => u.name = m.name ∧ u.WellFormed ∧ u.Closed) ?_ h
    ⟨rfl, hm, hclosed⟩
  rintro u v entry - hu hfold
  refine foldlM_keeps (P := fun u => u.name = m.name ∧ u.WellFormed ∧ u.Closed) ?_ hfold hu
  rintro w x t - ⟨hname, hw, hwclosed⟩ hadd
  obtain ⟨hname', hkeeps⟩ := addDescribed_keeps hw hwclosed hadd
  exact ⟨hname'.trans hname, hkeeps⟩

theorem closed_new (identity : Identity) (name : String) : (Machine.new identity name).Closed :=
  fun _ h => absurd h List.not_mem_nil

theorem ofDocument_keeps {identity : Identity} {name : String} {document : MachineDocument}
    (h : Machine.ofDocument identity name document = .ok m) :
    m.name = name ∧ m.WellFormed ∧ m.Closed := by
  unfold ofDocument at h
  obtain ⟨u, hstates, htransitions⟩ := bind_eq_ok_iff.mp h
  obtain ⟨hname, hu, huclosed⟩ :=
    addStates_keeps (WellFormed.new identity name) (closed_new identity name) hstates
  obtain ⟨hname', hkeeps⟩ := addTransitions_keeps hu huclosed htransitions
  exact ⟨hname'.trans hname, hkeeps⟩

end Machine

namespace Project

theorem insertMachine_keeps {p q : Project} (hp : p.WellFormed) (hclosed : p.Closed)
    {m : Machine} (hm : m.WellFormed) (hmclosed : m.Closed) {h : Handle}
    (hinsert : p.insertMachine m = .ok (h, q)) : q.WellFormed ∧ q.Closed := by
  refine ⟨hp.insertMachine hm hinsert, ?_⟩
  obtain ⟨⟨h', machines⟩, hadd, hq⟩ := bind_eq_ok_iff.mp hinsert
  cases hq
  intro other hother
  rw [Store.live_add hadd] at hother
  rcases List.mem_append.mp hother with hold | hnew
  · exact hclosed other hold
  · rw [List.mem_singleton.mp hnew]
    exact hmclosed

theorem ofDocuments_keeps {next next' : Identity} {documents : ProjectDocument} {q : Project}
    (h : Project.ofDocuments next documents = .ok (q, next')) : q.WellFormed ∧ q.Closed := by
  refine foldlM_keeps (P := fun built => built.1.WellFormed ∧ built.1.Closed) ?_ h
    ⟨WellFormed.new next, fun _ h => absurd h List.not_mem_nil⟩
  rintro ⟨p, i⟩ built entry - ⟨hp, hclosed⟩ hbuilt
  simp only [addDescribed] at hbuilt
  split at hbuilt
  · cases hbuilt
  next m hm =>
  split at hbuilt
  · cases hbuilt
  next q' hinsert =>
  cases hbuilt
  obtain ⟨-, hwf, hmclosed⟩ := Machine.ofDocument_keeps hm
  exact insertMachine_keeps hp hclosed hwf hmclosed hinsert

end Project

end HierarchicalTuring
