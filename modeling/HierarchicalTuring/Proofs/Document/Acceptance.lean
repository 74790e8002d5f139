import HierarchicalTuring.Document.Reading
import HierarchicalTuring.Proofs.Document.Fault
import HierarchicalTuring.Proofs.Document.RoundTrip
import HierarchicalTuring.Proofs.Text.ByteOrder

/-! # Which documents are accepted

* A document with faults describes no machine, and the first of its faults is reported
  (`Machine.ofDocument_of_fault`).
* `Project.build_accepts_valid`: documents build a project exactly if all of them are valid. The
  project is described by the documents it was built from, less what they repeat, and the error
  tells the first fault of the first machine that has one.
-/

set_option autoImplicit false

namespace HierarchicalTuring

/-! ## Faults of transitions -/

namespace Machine

variable {m : Machine} {states : NameMap StateDocument}

theorem WellFormed.isSome_stateHandle? (hm : m.WellFormed) (name : String) :
    (m.stateHandle? name).isSome = (m.description? name).isSome := by
  rw [Bool.eq_iff_iff, Option.isSome_iff_exists, Option.isSome_iff_exists]
  constructor
  · rintro ⟨h, hh⟩
    obtain ⟨s, hs, hname⟩ := hm.stateHandle?_eq_some_iff.mp hh
    exact ⟨_, hm.description?_eq_some_iff.mpr ⟨s, mem_live_of_stateAt? hs, hname, rfl⟩⟩
  · rintro ⟨d, hd⟩
    obtain ⟨s, hs, hname, -⟩ := hm.description?_eq_some_iff.mp hd
    obtain ⟨h, hh⟩ := exists_stateAt?_of_mem_live hs
    exact ⟨h, hm.stateHandle?_eq_some_iff.mpr ⟨s, hh, hname⟩⟩

theorem WellFormed.contains_iff (hm : m.WellFormed) (hclosed : m.Closed) {s : State}
    (hs : s ∈ m.states.live) (c : Char) : s.byInput.contains c = true ↔
      ∃ d ∈ (m.describeState s).transitions, c ∈ d.input.toList := by
  rw [(hm.live s hs).contains_eq_true_iff]
  constructor
  · rintro ⟨stored, hstored, hc⟩
    obtain ⟨d, hd⟩ := hclosed.exists_describe? hs hstored
    exact ⟨d, mem_transitions_describeState.mpr ⟨stored, hstored, hd⟩,
      (input_of_describe? hd).symm ▸ hc⟩
  · rintro ⟨d, hd, hc⟩
    obtain ⟨stored, hstored, hd⟩ := mem_transitions_describeState.mp hd
    exact ⟨stored, hstored, input_of_describe? hd ▸ hc⟩

/-- A transition that none of the state is equal to is refused for the first character that is
claimed. -/
theorem WellFormed.addTransition_of_clash (hm : m.WellFormed) (hclosed : m.Closed) {s : State}
    (hs : s ∈ m.states.live) {before : List TransitionDocument} {d : StateDocument}
    (hd : d.transitions = []) (hstate : m.describeState s = before.foldl StateDocument.add d)
    {t : TransitionDocument} {transition : Transition}
    (hdescribe : m.describe? transition = some t.normal)
    (hsame : ¬ ∃ u ∈ before, t.normal = u.normal) {c : Char}
    (hclash : (t.normal.input.toList.find? fun c => ∃ u ∈ before, c ∈ u.input.toList) = some c) :
    s.addTransition transition = .error (.inputInUse c) := by
  have hmem : ∀ u, u ∈ (m.describeState s).transitions ↔ ∃ t ∈ before, u = t.normal := by
    intro u
    rw [hstate, StateDocument.mem_transitions_foldl_add, hd]
    simp
  have hinput := input_of_describe? hdescribe
  have hfound : transition.input.find? s.byInput.contains = some c := by
    have hclaimed : s.byInput.contains =
        fun c => decide (∃ u ∈ before, c ∈ u.input.toList) := by
      funext c
      rw [Bool.eq_iff_iff, hm.contains_iff hclosed hs, decide_eq_true_eq]
      constructor
      · rintro ⟨_, hu, hc⟩
        obtain ⟨t, ht, rfl⟩ := (hmem _).mp hu
        exact ⟨t, ht, TransitionDocument.mem_input_normal.mp hc⟩
      · rintro ⟨u, hu, hc⟩
        exact ⟨u.normal, (hmem _).mpr ⟨u, hu, rfl⟩, TransitionDocument.mem_input_normal.mpr hc⟩
    rw [← hinput, hclaimed]
    exact hclash
  have hne : transition.input ≠ [] := List.ne_nil_of_mem (List.mem_of_find?_eq_some hfound)
  have hid : s.idOf? transition = none := by
    unfold State.idOf?
    rw [Option.map_eq_none_iff, List.find?_eq_none]
    intro stored hstored heq
    rw [← of_decide_eq_true heq] at hdescribe
    obtain ⟨u, hu, hnormal⟩ :=
      (hmem _).mp (mem_transitions_describeState.mpr ⟨stored, hstored, hdescribe⟩)
    exact hsame ⟨u, hu, hnormal⟩
  unfold State.addTransition State.clash?
  rw [if_neg hne, hid, hfound]

/-- A faulty transition cannot be made, or reads nothing, or reads a character of an earlier one. -/
theorem WellFormed.toTransition_of_fault (hm : m.WellFormed) (hstates : m.HasStates states)
    {state : String} {before : List TransitionDocument} {t : TransitionDocument}
    {fault : MachineFault} (h : t.fault? states state before = some fault) :
    t.toTransition m state = .error fault ∨ ∃ transition, t.toTransition m state = .ok transition ∧
      (t.input.toList = [] ∧ fault = .refusedTransition state .emptyInput ∨
        (¬ ∃ u ∈ before, t.normal = u.normal) ∧ ∃ c,
          (t.normal.input.toList.find? fun c => ∃ u ∈ before, c ∈ u.input.toList) = some c ∧
          fault = .refusedTransition state (.inputInUse c)) := by
  have hdestination := (hm.isSome_stateHandle? t.destination).trans (hstates t.destination)
  unfold TransitionDocument.fault? at h
  unfold TransitionDocument.toTransition
  cases hhandle : m.stateHandle? t.destination with
  | none =>
    rw [hhandle, Option.isSome_none, eq_comm, Option.isSome_eq_false_iff] at hdestination
    rw [if_pos hdestination] at h
    cases h
    exact .inl rfl
  | some handle =>
    rw [hhandle, Option.isSome_some, eq_comm] at hdestination
    rw [if_neg (by simp [Option.isSome_iff_ne_none.mp hdestination])] at h
    cases houtput : t.writes state with
    | error fault' =>
      rw [houtput] at h
      cases h
      exact .inl rfl
    | ok output =>
      rw [houtput] at h
      cases hmove : Direction.ofCode? t.move with
      | none =>
        rw [hmove] at h
        cases h
        exact .inl rfl
      | some direction =>
        simp only [hmove, Option.isNone_some, Bool.false_eq_true, if_false] at h
        refine .inr ⟨_, rfl, ?_⟩
        by_cases hinput : t.input.toList = []
        · rw [if_pos hinput] at h
          exact .inl ⟨hinput, (Option.some.inj h).symm⟩
        by_cases hsame : ∃ u ∈ before, t.normal = u.normal
        · rw [if_neg hinput, if_pos hsame] at h
          cases h
        · rw [if_neg hinput, if_neg hsame, Option.map_eq_some_iff] at h
          obtain ⟨c, hc, hfault⟩ := h
          exact .inr ⟨hsame, c, hc, hfault.symm⟩

theorem WellFormed.addDescribed_of_fault (hm : m.WellFormed) (hclosed : m.Closed)
    (hstates : m.HasStates states) {state : String} {d : StateDocument} (hd : d.transitions = [])
    {before : List TransitionDocument}
    (hstate : m.description? state = some (before.foldl StateDocument.add d))
    {t : TransitionDocument} {fault : MachineFault}
    (h : t.fault? states state before = some fault) :
    m.addDescribed state t = .error fault := by
  obtain ⟨s, hs, hdescribe⟩ := Option.map_eq_some_iff.mp hstate
  unfold addDescribed
  rcases hm.toTransition_of_fault hstates h with
    herror | ⟨transition, htransition, ⟨hinput, rfl⟩ | ⟨hsame, c, hc, rfl⟩⟩
  · rw [herror]
    rfl
  · have hempty : transition.input = [] := by
      rw [← input_of_describe? (hm.describe?_toTransition htransition), TransitionDocument.normal,
        hinput]
      rfl
    rw [htransition]
    simp only [bind, Except.bind, hs, State.addTransition_of_input_eq_nil hempty]
  · have hadd := hm.addTransition_of_clash hclosed (hm.state?_eq_some_iff.mp hs).1 hd hdescribe
      (hm.describe?_toTransition htransition) hsame hc
    rw [htransition]
    simp only [bind, Except.bind, hs, hadd]

theorem WellFormed.addDescribed_all_of_fault (hm : m.WellFormed) (hclosed : m.Closed)
    (hstates : m.HasStates states) {state : String} {d : StateDocument} (hd : d.transitions = [])
    (hstate : m.description? state = some d) {l : List TransitionDocument} {fault : MachineFault}
    (h : (StateDocument.faultsFrom states state [] l).head? = some fault) :
    l.foldlM (fun m t => m.addDescribed state t) m = .error fault := by
  obtain ⟨good, t, rest, rfl, hgood, hfault⟩ := StateDocument.exists_first_fault h
  obtain ⟨hvalid, hapart⟩ := StateDocument.faultsFrom_nil_eq_nil_iff.mp hgood
  have hbegin : m.description? state = some ([].foldl StateDocument.add d) := hstate
  obtain ⟨u, hu, huwf, huclosed, hdescription⟩ :=
    hm.addDescribed_all hclosed hstates hd hbegin hvalid hapart
  have hrefused := huwf.addDescribed_of_fault huclosed (hstates.update hstate hdescription) hd
    ((hdescription state).trans (if_pos rfl)) hfault
  exact foldlM_eq_error hu hrefused

/-! ## Faults of machines -/

theorem ofDocument_of_fault {d : MachineDocument} {fault : MachineFault}
    (h : d.faults.head? = some fault) (identity : Identity) (name : String) :
    ofDocument identity name d = .error fault := by
  obtain ⟨before, entry, after, hentries, hbefore, hfault⟩ := MachineDocument.exists_first_fault h
  obtain ⟨v, hv, hvwf, hvclosed, hstates, hbare⟩ := exists_addStates identity name d.states
  -- The states in front of the faulty one get all their transitions.
  have hdistinct : ((before ++ entry :: after).map Prod.fst).Nodup :=
    hentries ▸ d.states.nodup_names
  rw [List.map_append, List.map_cons, List.nodup_append] at hdistinct
  have hmem : ∀ other ∈ before, other ∈ d.states.entries := fun other hother =>
    hentries ▸ List.mem_append_left _ hother
  have hvalid := fun other hother =>
    StateDocument.faultsFrom_nil_eq_nil_iff.mp (hbefore other hother)
  obtain ⟨u, hu, hdone, hrest⟩ := hvwf.addTransitions_ok hvclosed hstates hdistinct.1
    (fun other hother => hbare other (hmem other hother))
    (fun other hother => (hvalid other hother).1) (fun other hother => (hvalid other hother).2)
  obtain ⟨-, huwf, huclosed⟩ := addTransitions_keeps hvwf hvclosed hu
  have hustates : u.HasStates d.states := by
    intro other
    by_cases hother : other ∈ before.map Prod.fst
    · obtain ⟨⟨other, e⟩, he, rfl⟩ := List.mem_map.mp hother
      rw [hdone _ he, NameMap.find?_eq_some_iff.mpr (hmem _ he)]
      rfl
    · rw [hrest other hother, hstates]
  have hnew : entry.1 ∉ before.map Prod.fst := fun hold =>
    hdistinct.2.2 _ hold _ List.mem_cons_self rfl
  have hstate : u.description? entry.1 = some entry.2.bare := by
    rw [hrest entry.1 hnew, hbare entry (hentries ▸ by simp)]
  have hrefused := huwf.addDescribed_all_of_fault huclosed hustates rfl hstate hfault
  unfold ofDocument
  rw [hv]
  show v.addTransitions d.states.entries = .error fault
  rw [hentries]
  exact foldlM_eq_error hu hrefused

end Machine

/-! ## Normal forms by the library's functions -/

theorem foldl_keep_eq_append_eraseDups {α : Type} [DecidableEq α] (l kept : List α) :
    l.foldl (fun kept a => if a ∈ kept then kept else kept ++ [a]) kept =
      kept ++ (l.filter fun a => a ∉ kept).eraseDups := by
  induction l generalizing kept with
  | nil => simp
  | cons a l ih =>
    rw [List.foldl_cons, ih]
    by_cases ha : a ∈ kept
    · simp [ha]
    · have hfilter : (l.filter fun b => b ∉ kept ++ [a]) =
          (l.filter fun b => b ∉ kept).filter fun b => !b == a := by
        rw [List.filter_filter]
        refine List.filter_congr fun b _ => ?_
        rw [Bool.eq_iff_iff]
        simp [and_comm]
      rw [if_neg ha, hfilter, List.filter_cons_of_pos (by simpa using ha), List.eraseDups_cons]
      simp

theorem firstOccurrences_eq_eraseDups (text : List Char) :
    firstOccurrences text = text.eraseDups := by
  unfold firstOccurrences
  rw [foldl_keep_eq_append_eraseDups]
  simp

theorem StateDocument.normal_eq (s : StateDocument) : s.normal =
    { s with transitions := (s.transitions.map TransitionDocument.normal).eraseDups } := by
  have hfold : ∀ (l : List TransitionDocument) (kept : StateDocument), l.foldl add kept =
      { kept with
        transitions := (l.map TransitionDocument.normal).foldl
          (fun kept t => if t ∈ kept then kept else kept ++ [t]) kept.transitions } := by
    intro l
    induction l with
    | nil => exact fun _ => rfl
    | cons t l ih =>
      intro kept
      rw [List.foldl_cons, ih, List.map_cons, List.foldl_cons]
      unfold add
      split
      · rfl
      · rfl
  rw [normal, hfold, foldl_keep_eq_append_eraseDups]
  simp [bare]

namespace Project

variable {documents : ProjectDocument}

/-- Documents of which one is not valid describe no project, and the first fault of the first such
document is reported. -/
theorem ofDocuments_of_fault {before after : List (String × MachineDocument)} {name : String}
    {d : MachineDocument} (hentries : documents.entries = before ++ (name, d) :: after)
    (hbefore : ∀ entry ∈ before, entry.2.Valid) {fault : MachineFault}
    (h : d.faults.head? = some fault) (next : Identity) :
    ofDocuments next documents = .error (.inMachine name fault) := by
  have hdistinct : ((before ++ (name, d) :: after).map Prod.fst).Nodup :=
    hentries ▸ documents.nodup_names
  rw [List.map_append, List.nodup_append] at hdistinct
  obtain ⟨q, next', hq, -⟩ := (WellFormed.new next).foldlM_addDescribed_ok (next + 1) hbefore
    hdistinct.1
  have hrefused : addDescribed (q, next') (name, d) = .error (.inMachine name fault) := by
    simp only [addDescribed, Machine.ofDocument_of_fault h]
  unfold ofDocuments
  rw [hentries]
  exact foldlM_eq_error hq hrefused

/-- The documents without what they repeat and without the values that mean nothing. -/
theorem map_normal_eq (documents : ProjectDocument) : documents.map MachineDocument.normal =
    documents.map fun d =>
      { states := d.states.map fun s =>
          { s with
            transitions := (s.transitions.map fun t =>
              { t with input := String.ofList t.input.toList.eraseDups }).eraseDups }
        submachines := none } := by
  have hnormal : TransitionDocument.normal =
      fun t => { t with input := String.ofList t.input.toList.eraseDups } := by
    funext t
    rw [TransitionDocument.normal, firstOccurrences_eq_eraseDups]
  congr 1
  funext d
  unfold MachineDocument.normal
  congr 2
  funext s
  rw [StateDocument.normal_eq, hnormal]

theorem exists_first_invalid (h : ¬ ∀ entry ∈ documents.entries, entry.2.Valid) :
    ∃ before name d after, documents.entries = before ++ (name, d) :: after ∧
      (∀ entry ∈ before, entry.2.Valid) ∧ ¬ d.Valid := by
  classical
  obtain ⟨invalid, hmem, hinvalid⟩ := not_forall₂.mp h
  have hsome : (documents.entries.find? fun entry => ¬ entry.2.Valid).isSome = true := by
    rw [List.find?_isSome]
    exact ⟨invalid, hmem, decide_eq_true hinvalid⟩
  obtain ⟨⟨name, d⟩, hfind⟩ := Option.isSome_iff_exists.mp hsome
  obtain ⟨hfirst, before, after, hentries, hbefore⟩ := List.find?_eq_some_iff_append.mp hfind
  refine ⟨before, name, d, after, hentries, fun entry hentry => ?_, of_decide_eq_true hfirst⟩
  have hvalid := hbefore entry hentry
  simpa using hvalid

theorem build_of_valid (h : ∀ entry ∈ documents.entries, entry.2.Valid) (next : Identity) :
    ∃ q next', build next documents = .ok (q, next') ∧
      q.toDocuments = documents.map MachineDocument.normal := by
  obtain ⟨q, next', hq, hdocuments⟩ := ofDocuments_of_valid h next
  refine ⟨q, next', ?_, hdocuments⟩
  unfold build
  rw [hq]
  rfl

/-- The first document that is not valid comes before all others in the order of the bytes. -/
theorem build_of_invalid (h : ¬ ∀ entry ∈ documents.entries, entry.2.Valid) (next : Identity) :
    ∃ name d fault, documents.find? name = some d ∧ ¬ d.Valid ∧ d.faults.head? = some fault ∧
      (∀ other d', documents.find? other = some d' → ¬ d'.Valid →
        other = name ∨ bytes name < bytes other) ∧
      build next documents = .error (.malformedFile s!"Machine {name}: {fault.message}") := by
  obtain ⟨before, name, d, after, hentries, hbefore, hinvalid⟩ := exists_first_invalid h
  obtain ⟨fault, rest, hfaults⟩ :=
    List.exists_cons_of_ne_nil (mt MachineDocument.faults_eq_nil_iff.mp hinvalid)
  have hfirst : d.faults.head? = some fault := by rw [hfaults, List.head?_cons]
  have hmem : (name, d) ∈ documents.entries := hentries ▸ by simp
  refine ⟨name, d, fault, NameMap.find?_eq_some_iff.mpr hmem, hinvalid, hfirst, ?_, ?_⟩
  · intro other d' hother hinvalid'
    have hincrease := documents.increase
    have hother := NameMap.find?_eq_some_iff.mp hother
    rw [NamesIncrease, hentries, List.pairwise_append, List.pairwise_cons] at hincrease
    rw [hentries] at hother
    rcases List.mem_append.mp hother with hfront | hrest
    · exact absurd (hbefore _ hfront) hinvalid'
    rcases List.mem_cons.mp hrest with heq | hback
    · exact .inl (congrArg Prod.fst heq)
    · exact .inr (bytes_lt_bytes_iff.mpr (hincrease.2.1.1 _ hback))
  · unfold build
    rw [ofDocuments_of_fault hentries hbefore hfirst]
    rfl

/-- Exactly valid documents build a project. It is described by the documents it was built from,
less what they repeat; otherwise the first fault of the first machine that has one is reported. -/
theorem build_accepts_valid (next : Identity) (documents : ProjectDocument) :
    ((∃ built, build next documents = .ok built) ↔
      ∀ entry ∈ documents.entries, entry.2.Valid) ∧
    (∀ q next', build next documents = .ok (q, next') →
      q.toDocuments = documents.map fun d =>
        { states := d.states.map fun s =>
            { s with
              transitions := (s.transitions.map fun t =>
                { t with input := String.ofList t.input.toList.eraseDups }).eraseDups }
          submachines := none }) ∧
    ∀ e, build next documents = .error e → ∃ name d fault,
      documents.find? name = some d ∧ ¬ d.Valid ∧ d.faults.head? = some fault ∧
      (∀ other d', documents.find? other = some d' → ¬ d'.Valid →
        other = name ∨ bytes name < bytes other) ∧
      e = .malformedFile s!"Machine {name}: {fault.message}" := by
  by_cases hvalid : ∀ entry ∈ documents.entries, entry.2.Valid
  · obtain ⟨q, next', hbuild, hdocuments⟩ := build_of_valid hvalid next
    rw [map_normal_eq] at hdocuments
    rw [hbuild]
    refine ⟨⟨fun _ => hvalid, fun _ => ⟨_, rfl⟩⟩, fun q' i hq => ?_, nofun⟩
    cases hq
    exact hdocuments
  · obtain ⟨name, d, fault, hfind, hinvalid, hfault, hfirst, hbuild⟩ :=
      build_of_invalid hvalid next
    rw [hbuild]
    refine ⟨⟨nofun, fun h => absurd h hvalid⟩, nofun, fun e he => ?_⟩
    cases he
    exact ⟨name, d, fault, hfind, hinvalid, hfault, hfirst, rfl⟩

end Project

end HierarchicalTuring
