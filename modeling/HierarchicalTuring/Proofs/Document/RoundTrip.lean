import HierarchicalTuring.Proofs.Document.Description

/-! # Building from documents and describing again

* `Machine.ofDocument_of_valid`: a valid document describes a machine, and that machine is described
  by the normal form of the document. `Project.ofDocuments_of_valid` is the same for projects.
* The document of a well-formed machine is valid and its own normal form
  (`WellFormed.valid_toDocument`, `WellFormed.normal_toDocument`), so describing, building and
  describing again leads nowhere else (`Project.WellFormed.ofDocuments_toDocuments`).
-/

set_option autoImplicit false

namespace HierarchicalTuring

namespace Machine

variable {m : Machine}

/-! ## Adding the states -/

theorem WellFormed.insertState_ok (hm : m.WellFormed) {s : State} (hfree : s.name ∉ m.stateNames) :
    ∃ h u, m.insertState s = .ok (h, u) ∧ u.states.live = m.states.live ++ [s] := by
  have hname : Named.name s ∉ m.states.names := hfree
  obtain ⟨h, states, hadd⟩ := hm.indexed.exists_add hname
  refine ⟨h, { m with states }, ?_, Store.live_add hadd⟩
  unfold Machine.insertState
  rw [hadd]
  rfl

theorem WellFormed.addStates_ok (hm : m.WellFormed) {entries : List (String × StateDocument)}
    (hnodup : (m.stateNames ++ entries.map Prod.fst).Nodup) :
    ∃ u, m.addStates entries = .ok u ∧
      u.states.live = m.states.live ++ entries.map fun entry => entry.2.toState entry.1 := by
  induction entries generalizing m with
  | nil => exact ⟨m, rfl, by simp⟩
  | cons entry entries ih =>
    rw [List.map_cons] at hnodup
    have hfree : (entry.2.toState entry.1).name ∉ m.stateNames := by
      intro hmem
      exact (List.nodup_append.mp hnodup).2.2 _ hmem _ List.mem_cons_self rfl
    obtain ⟨h, v, hinsert, hlive⟩ := hm.insertState_ok hfree
    have hv : v.WellFormed := hm.insertState (entry.2.indexed_toState entry.1) hinsert
    have hnames : v.stateNames = m.stateNames ++ [entry.1] := by
      simp only [stateNames, Store.names, hlive, List.map_append]
      rfl
    obtain ⟨u, hu, hulive⟩ := ih hv (by rw [hnames]; simpa using hnodup)
    refine ⟨u, ?_, by rw [hulive, hlive]; simp⟩
    unfold addStates
    rw [List.foldlM_cons, hinsert]
    exact hu

/-- The states that were added are described as they were, without transitions. -/
theorem exists_addStates (identity : Identity) (name : String) (states : NameMap StateDocument) :
    ∃ u, (Machine.new identity name).addStates states.entries = .ok u ∧ u.WellFormed ∧ u.Closed ∧
      u.HasStates states ∧
      ∀ entry ∈ states.entries, u.description? entry.1 = some entry.2.bare := by
  have hnew := WellFormed.new identity name
  have hfresh : ((Machine.new identity name).stateNames ++ states.entries.map Prod.fst).Nodup :=
    states.nodup_names
  obtain ⟨u, hu, hlive⟩ := hnew.addStates_ok hfresh
  have hlive' : u.states.live = states.entries.map fun entry => entry.2.toState entry.1 := hlive
  obtain ⟨-, hwf, hclosed⟩ := addStates_keeps hnew (closed_new identity name) hu
  have hbare : ∀ entry ∈ states.entries, u.description? entry.1 = some entry.2.bare := by
    intro entry hentry
    refine hwf.description?_eq_some_iff.mpr ⟨entry.2.toState entry.1, ?_, rfl, rfl⟩
    rw [hlive']
    exact List.mem_map_of_mem hentry
  refine ⟨u, hu, hwf, hclosed, fun other => ?_, hbare⟩
  rw [Bool.eq_iff_iff, Option.isSome_iff_exists, Option.isSome_iff_exists]
  constructor
  · rintro ⟨d, hd⟩
    obtain ⟨s, hs, rfl, -⟩ := hwf.description?_eq_some_iff.mp hd
    rw [hlive'] at hs
    obtain ⟨entry, hentry, rfl⟩ := List.mem_map.mp hs
    exact ⟨entry.2, NameMap.find?_eq_some_iff.mpr hentry⟩
  · rintro ⟨d, hd⟩
    exact ⟨d.bare, hbare (other, d) (NameMap.find?_eq_some_iff.mp hd)⟩

/-! ## Adding the transitions -/

theorem WellFormed.exists_toTransition (hm : m.WellFormed) {states : NameMap StateDocument}
    (hstates : m.HasStates states) {t : TransitionDocument} (ht : t.Valid states)
    (state : String) : ∃ transition, t.toTransition m state = .ok transition := by
  obtain ⟨d, hd⟩ := ht.destination
  obtain ⟨e, he⟩ := hstates.exists_description? hd
  obtain ⟨s, hs, hname, -⟩ := hm.description?_eq_some_iff.mp he
  obtain ⟨direction, hdirection⟩ := ht.move
  obtain ⟨h, hh⟩ := exists_stateAt?_of_mem_live hs
  obtain ⟨output, houtput⟩ := TransitionDocument.exists_writes_iff.mpr ht.output
  exact ⟨_, TransitionDocument.toTransition_eq_ok_iff.mpr
    ⟨h, output, direction, hm.stateHandle?_eq_some_iff.mpr ⟨s, hh, hname⟩, houtput,
      Direction.ofCode?_eq_some_iff.mpr hdirection, rfl⟩⟩

/-- The transitions of one state are added one after the other to those that are there. -/
theorem WellFormed.addDescribed_all (hm : m.WellFormed) (hclosed : m.Closed)
    {states : NameMap StateDocument} (hstates : m.HasStates states)
    {state : String} {d : StateDocument} (hd : d.transitions = [])
    {before rest : List TransitionDocument}
    (hstate : m.description? state = some (before.foldl StateDocument.add d))
    (hvalid : ∀ t ∈ rest, t.Valid states)
    (hapart : ∀ t ∈ rest, ∀ u ∈ before ++ rest, t.normal = u.normal ∨ t.Apart u) :
    ∃ u, rest.foldlM (fun m t => m.addDescribed state t) m = .ok u ∧ u.WellFormed ∧ u.Closed ∧
      ∀ name, u.description? name =
        if name = state then some ((before ++ rest).foldl StateDocument.add d)
        else m.description? name := by
  -- What was added so far moves from `rest` to `before`, the machine being described by `before`.
  induction rest generalizing m before with
  | nil =>
    refine ⟨m, rfl, hm, hclosed, fun name => ?_⟩
    split
    · next hname => rw [hname, hstate, List.append_nil]
    · rfl
  | cons t rest ih =>
    obtain ⟨ht, hrest⟩ := List.forall_mem_cons.mp hvalid
    obtain ⟨transition, htransition⟩ := hm.exists_toTransition hstates ht state
    have hadmits : (before.foldl StateDocument.add d).Admits t :=
      StateDocument.admits_foldl_add hd fun u hu =>
        hapart t List.mem_cons_self u (List.mem_append_left _ hu)
    obtain ⟨v, hadd, hv⟩ := hm.addDescribed_ok hclosed hstate htransition ht.input hadmits
    obtain ⟨-, hvwf, hvclosed⟩ := addDescribed_keeps hm hclosed hadd
    have hvstates : v.HasStates states := hstates.update hstate hv
    have hvstate : v.description? state = some ((before ++ [t]).foldl StateDocument.add d) := by
      rw [hv, if_pos rfl, List.foldl_append]
      rfl
    have hvapart : ∀ t' ∈ rest, ∀ u ∈ before ++ [t] ++ rest, t'.normal = u.normal ∨ t'.Apart u := by
      intro t' ht' u hu
      exact hapart t' (List.mem_cons_of_mem _ ht') u (by simpa using hu)
    obtain ⟨u, hu, huwf, huclosed, hdescription⟩ :=
      ih hvwf hvclosed hvstates hvstate hrest hvapart
    refine ⟨u, ?_, huwf, huclosed, fun name => ?_⟩
    · rw [List.foldlM_cons, hadd]
      exact hu
    · rw [hdescription, hv]
      by_cases hname : name = state
      · rw [if_pos hname, if_pos hname, List.append_assoc, List.singleton_append]
      · rw [if_neg hname, if_neg hname, if_neg hname]

/-- Every state gets its transitions, and no other. -/
theorem WellFormed.addTransitions_ok (hm : m.WellFormed) (hclosed : m.Closed)
    {states : NameMap StateDocument} (hstates : m.HasStates states)
    {entries : List (String × StateDocument)} (hnodup : (entries.map Prod.fst).Nodup)
    (hbare : ∀ entry ∈ entries, m.description? entry.1 = some entry.2.bare)
    (hvalid : ∀ entry ∈ entries, ∀ t ∈ entry.2.transitions, t.Valid states)
    (hapart : ∀ entry ∈ entries, ∀ t ∈ entry.2.transitions, ∀ u ∈ entry.2.transitions,
      t.normal = u.normal ∨ t.Apart u) :
    ∃ u, m.addTransitions entries = .ok u ∧
      (∀ entry ∈ entries, u.description? entry.1 = some entry.2.normal) ∧
      ∀ name, name ∉ entries.map Prod.fst → u.description? name = m.description? name := by
  induction entries generalizing m with
  | nil => exact ⟨m, rfl, fun _ h => absurd h List.not_mem_nil, fun _ _ => rfl⟩
  | cons entry entries ih =>
    rw [List.map_cons, List.nodup_cons] at hnodup
    obtain ⟨hentry, hbare'⟩ := List.forall_mem_cons.mp hbare
    obtain ⟨hvalid, hvalid'⟩ := List.forall_mem_cons.mp hvalid
    obtain ⟨hapart, hapart'⟩ := List.forall_mem_cons.mp hapart
    have hstart : m.description? entry.1 = some ([].foldl StateDocument.add entry.2.bare) := hentry
    obtain ⟨v, hfold, hvwf, hvclosed, hv⟩ :=
      hm.addDescribed_all hclosed hstates rfl hstart hvalid hapart
    have hvstates : v.HasStates states := hstates.update hstart hv
    have hvbare : ∀ other ∈ entries, v.description? other.1 = some other.2.bare := by
      intro other hother
      rw [hv, if_neg, hbare' other hother]
      exact fun heq => hnodup.1 (heq ▸ List.mem_map_of_mem hother)
    obtain ⟨u, hu, hdone, hrest⟩ := ih hvwf hvclosed hvstates hnodup.2 hvbare hvalid' hapart'
    refine ⟨u, ?_, List.forall_mem_cons.mpr ⟨?_, hdone⟩, fun name hname => ?_⟩
    · unfold addTransitions
      rw [List.foldlM_cons, hfold]
      exact hu
    · rw [hrest entry.1 hnodup.1, hv, if_pos rfl]
      rfl
    · rw [List.map_cons, List.mem_cons, not_or] at hname
      rw [hrest name hname.2, hv, if_neg hname.1]

/-- A valid document describes a machine, which is described by its normal form. -/
theorem ofDocument_of_valid {d : MachineDocument} (h : d.Valid) (identity : Identity)
    (name : String) : ∃ m, ofDocument identity name d = .ok m ∧ m.toDocument = d.normal := by
  obtain ⟨v, hv, hvwf, hvclosed, hstates, hbare⟩ := exists_addStates identity name d.states
  obtain ⟨m, hm, hdone, hrest⟩ :=
    hvwf.addTransitions_ok hvclosed hstates d.states.nodup_names hbare h.transition h.apart
  have hbuilt : ofDocument identity name d = .ok m := by
    unfold ofDocument
    rw [hv]
    exact hm
  have hmwf := (ofDocument_keeps hbuilt).2.1
  have hstates : m.toDocument.states = d.normal.states := by
    refine NameMap.ext_find? fun other => ?_
    rw [hmwf.find?_toDocument, MachineDocument.normal, NameMap.find?_map]
    cases hother : d.states.find? other with
    | some e => exact hdone (other, e) (NameMap.find?_eq_some_iff.mp hother)
    | none =>
      have hnone := hstates other
      rw [hother, Option.isSome_none, Option.isSome_eq_false_iff,
        Option.isNone_iff_eq_none] at hnone
      rw [hrest other (NameMap.find?_eq_none_iff.mp hother), hnone]
      rfl
  refine ⟨m, hbuilt, ?_⟩
  show MachineDocument.mk m.toDocument.states none = MachineDocument.mk d.normal.states none
  rw [hstates]

/-! ## The document of a machine -/

theorem input_of_mem_describeState {s : State} (hs : s.Indexed) {d : TransitionDocument}
    (hd : d ∈ (m.describeState s).transitions) : d.input.toList.Nodup ∧ d.input.toList ≠ [] := by
  obtain ⟨stored, hstored, hdescribe⟩ := mem_transitions_describeState.mp hd
  rw [input_of_describe? hdescribe]
  exact ⟨hs.nodup_input stored hstored, hs.input_ne_nil stored hstored⟩

/-- Two described transitions of a state are the same if they read a common character. -/
theorem eq_or_apart_of_mem_describeState {s : State} (hs : s.Indexed) {d e : TransitionDocument}
    (hd : d ∈ (m.describeState s).transitions) (he : e ∈ (m.describeState s).transitions) :
    d = e ∨ d.Apart e := by
  obtain ⟨⟨i, t⟩, ht, hdescribe⟩ := mem_transitions_describeState.mp hd
  obtain ⟨⟨j, u⟩, hu, hdescribe'⟩ := mem_transitions_describeState.mp he
  by_cases hshared : ∃ c ∈ t.input, c ∈ u.input
  · obtain ⟨c, hc, hc'⟩ := hshared
    obtain ⟨-, rfl⟩ := hs.eq_of_reads ht hu hc hc'
    rw [hdescribe] at hdescribe'
    exact .inl (Option.some.inj hdescribe')
  · refine .inr fun c hc hc' => hshared ⟨c, ?_, ?_⟩
    · exact input_of_describe? hdescribe ▸ hc
    · exact input_of_describe? hdescribe' ▸ hc'

theorem nodup_transitions_describeState {s : State} (hs : s.Indexed) :
    (m.describeState s).transitions.Nodup := by
  have hids : s.transitions.Pairwise fun a b => a.1 < b.1 := List.pairwise_map.mp hs.ids_increase
  refine List.pairwise_filterMap.mpr (hids.imp_of_mem ?_)
  intro a b ha hb hlt d hd e he heq
  subst heq
  obtain ⟨c, hc⟩ := List.exists_mem_of_ne_nil _ (hs.input_ne_nil a ha)
  have hc' : c ∈ b.2.input := by
    rw [← input_of_describe? he, input_of_describe? hd]
    exact hc
  exact absurd (hs.eq_of_reads ha hb hc hc').1 (Nat.ne_of_lt hlt)

theorem normal_describeState {s : State} (hs : s.Indexed) :
    (m.describeState s).normal = m.describeState s := by
  have hnormal : (m.describeState s).transitions.map TransitionDocument.normal =
      (m.describeState s).transitions := by
    refine (List.map_congr_left fun d hd => ?_).trans (List.map_id _)
    exact TransitionDocument.normal_of_nodup (input_of_mem_describeState hs hd).1
  rw [StateDocument.normal, StateDocument.foldl_add_of_nodup]
  · rw [hnormal]
    rfl
  · rw [hnormal]
    exact nodup_transitions_describeState hs

theorem WellFormed.valid_describe? (hm : m.WellFormed) {t : Transition} {d : TransitionDocument}
    (hinput : t.input ≠ []) (h : m.describe? t = some d) : d.Valid m.toDocument.states := by
  have hinput' : d.input.toList ≠ [] := by rwa [input_of_describe? h]
  obtain ⟨s, hs, rfl⟩ := describe?_eq_some_iff.mp h
  refine ⟨?_, ?_, ⟨t.direction, rfl⟩, hinput'⟩
  · refine ⟨m.describeState s, ?_⟩
    rw [hm.find?_toDocument, hm.description?_eq_some_iff]
    exact ⟨s, mem_live_of_stateAt? hs, rfl, rfl⟩
  · intro text htext
    obtain ⟨c, -, rfl⟩ := Option.map_eq_some_iff.mp htext
    exact ⟨c, rfl⟩

theorem WellFormed.valid_toDocument (hm : m.WellFormed) : m.toDocument.Valid := by
  have hentry : ∀ entry ∈ m.toDocument.states.entries,
      ∃ s ∈ m.states.live, s.name = entry.1 ∧ m.describeState s = entry.2 := by
    intro entry hentry
    rw [← hm.description?_eq_some_iff, ← hm.find?_toDocument]
    exact NameMap.find?_eq_some_iff.mpr hentry
  constructor
  · intro entry hmem d hd
    obtain ⟨s, hs, -, hdescribe⟩ := hentry entry hmem
    rw [← hdescribe] at hd
    obtain ⟨stored, hstored, hd⟩ := mem_transitions_describeState.mp hd
    exact hm.valid_describe? ((hm.live s hs).input_ne_nil stored hstored) hd
  · intro entry hmem d hd e he
    obtain ⟨s, hs, -, hdescribe⟩ := hentry entry hmem
    rw [← hdescribe] at hd he
    exact (eq_or_apart_of_mem_describeState (hm.live s hs) hd he).imp_left
      (congrArg TransitionDocument.normal)

theorem WellFormed.normal_toDocument (hm : m.WellFormed) : m.toDocument.normal = m.toDocument := by
  have hstates : m.toDocument.states.map StateDocument.normal = m.toDocument.states := by
    refine NameMap.ext_find? fun name => ?_
    rw [NameMap.find?_map, hm.find?_toDocument]
    cases hd : m.description? name with
    | none => rfl
    | some d =>
      obtain ⟨s, hs, -, rfl⟩ := hm.description?_eq_some_iff.mp hd
      exact congrArg some (normal_describeState (hm.live s hs))
  show MachineDocument.mk (m.toDocument.states.map StateDocument.normal) none =
    MachineDocument.mk m.toDocument.states none
  rw [hstates]

end Machine

namespace Project

/-! ## Projects -/

variable {p : Project}

theorem WellFormed.find?_toDocuments (hp : p.WellFormed) (name : String) :
    p.toDocuments.find? name = (p.machine? name).map Machine.toDocument := by
  have hnodup : ((p.machines.live.map fun m => (m.name, m.toDocument)).map Prod.fst).Nodup := by
    rw [List.map_map]
    exact hp.indexed.nodup_names
  refine Option.ext fun d => ?_
  rw [toDocuments, NameMap.find?_ofList_eq_some_iff hnodup, Option.map_eq_some_iff]
  simp only [List.mem_map, Prod.mk.injEq, hp.machine?_eq_some_iff, and_assoc]

/-- Every machine that a valid document describes is added. -/
theorem WellFormed.foldlM_addDescribed_ok (hp : p.WellFormed) (next : Identity)
    {entries : List (String × MachineDocument)} (hvalid : ∀ entry ∈ entries, entry.2.Valid)
    (hnodup : (p.machineNames ++ entries.map Prod.fst).Nodup) :
    ∃ q next', entries.foldlM addDescribed (p, next) = .ok (q, next') ∧
      q.machines.live.map (fun m => (m.name, m.toDocument)) =
        p.machines.live.map (fun m => (m.name, m.toDocument)) ++
          entries.map fun entry => (entry.1, entry.2.normal) := by
  induction entries generalizing p next with
  | nil => exact ⟨p, next, rfl, by simp⟩
  | cons entry entries ih =>
    obtain ⟨hentry, hvalid'⟩ := List.forall_mem_cons.mp hvalid
    obtain ⟨m, hm, hdocument⟩ := Machine.ofDocument_of_valid hentry next entry.1
    obtain ⟨hname, hmwf, -⟩ := Machine.ofDocument_keeps hm
    rw [List.map_cons] at hnodup
    have hfree : Named.name m ∉ p.machines.names := by
      intro hmem
      exact (List.nodup_append.mp hnodup).2.2 _ hmem _ List.mem_cons_self hname
    obtain ⟨h, machines, hadd⟩ := hp.indexed.exists_add hfree
    have hinsert : p.insertMachine m = .ok (h, ⟨machines⟩) := by
      unfold Project.insertMachine
      rw [hadd]
      rfl
    have hlive : machines.live = p.machines.live ++ [m] := Store.live_add hadd
    have hnames : (Project.mk machines).machineNames = p.machineNames ++ [entry.1] := by
      simp only [machineNames, Store.names, hlive, List.map_append]
      rw [← hname]
      rfl
    obtain ⟨q, next', hq, hdocuments⟩ := ih (p := ⟨machines⟩) (hp.insertMachine hmwf hinsert)
      (next + 1) hvalid' (by rw [hnames]; simpa using hnodup)
    refine ⟨q, next', ?_, ?_⟩
    · rw [List.foldlM_cons, addDescribed]
      simp only [hm, hinsert]
      exact hq
    · rw [hdocuments, hlive, List.map_append, List.map_cons, hname, hdocument]
      simp

/-- Valid documents describe a project, which is described by their normal forms. -/
theorem ofDocuments_of_valid {documents : ProjectDocument}
    (h : ∀ entry ∈ documents.entries, entry.2.Valid) (next : Identity) :
    ∃ q next', ofDocuments next documents = .ok (q, next') ∧
      q.toDocuments = documents.map MachineDocument.normal := by
  obtain ⟨q, next', hq, hlive⟩ := (WellFormed.new next).foldlM_addDescribed_ok (next + 1) h
    documents.nodup_names
  refine ⟨q, next', hq, ?_⟩
  rw [toDocuments, hlive]
  exact NameMap.ofList_entries (documents.map MachineDocument.normal)

/-- Describing a project, building it again and describing that gives the same documents. -/
theorem WellFormed.ofDocuments_toDocuments (hp : p.WellFormed) (next : Identity) :
    ∃ q next', ofDocuments next p.toDocuments = .ok (q, next') ∧
      q.toDocuments = p.toDocuments := by
  have hmachine : ∀ name d, p.toDocuments.find? name = some d →
      ∃ m : Machine, m.WellFormed ∧ m.toDocument = d := by
    intro name d hd
    rw [hp.find?_toDocuments, Option.map_eq_some_iff] at hd
    obtain ⟨m, hm, rfl⟩ := hd
    exact ⟨m, hp.of_machine? hm, rfl⟩
  have hvalid : ∀ entry ∈ p.toDocuments.entries, entry.2.Valid := by
    intro entry hentry
    obtain ⟨m, hm, hd⟩ := hmachine _ _ (NameMap.find?_eq_some_iff.mpr hentry)
    exact hd ▸ hm.valid_toDocument
  obtain ⟨q, next', hq, hdocuments⟩ := ofDocuments_of_valid hvalid next
  refine ⟨q, next', hq, hdocuments.trans (NameMap.ext_find? fun name => ?_)⟩
  rw [NameMap.find?_map]
  cases hd : p.toDocuments.find? name with
  | none => rfl
  | some d =>
    obtain ⟨m, hm, rfl⟩ := hmachine name d hd
    exact congrArg some hm.normal_toDocument

end Project

end HierarchicalTuring
