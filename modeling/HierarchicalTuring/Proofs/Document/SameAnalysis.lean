import HierarchicalTuring.Proofs.Analysis.Unreachable
import HierarchicalTuring.Proofs.Document.RoundTrip

/-! # Projects that are described alike are reported alike

* `ProjectDocument.SameUpToOrder`: the same machines and states, with the same transitions in any
  order. The projects that are so described may keep machines, states and transitions in other slots
  and under other numbers, and other transitions that lead nowhere.
* `Machine.DescribedAlike` carries a path through one machine over to the other, by the names of its
  states (`DescribedAlike.exists_reachable`), and `Project.DescribedAlike` carries over calls
  (`DescribedAlike.calls`) and then every finding (`DescribedAlike.mem_analyze`).
* `Project.analysis_of_documents`: what is found is determined by the documents, in an increasing
  list.
-/

set_option autoImplicit false

namespace HierarchicalTuring

/-! ## Documents up to the order of transitions -/

/-- The same description up to the order of the transitions. Coordinates are not compared. -/
structure StateDocument.SameUpToOrder (a b : StateDocument) : Prop where
  transitions : a.transitions.Perm b.transitions
  accepting : a.accepting = b.accepting
  submachine : a.submachine = b.submachine

instance (a b : StateDocument) : Decidable (a.SameUpToOrder b) :=
  decidable_of_iff
    (a.transitions.Perm b.transitions ∧ a.accepting = b.accepting ∧ a.submachine = b.submachine)
    ⟨fun h => ⟨h.1, h.2.1, h.2.2⟩, fun h => ⟨h.transitions, h.accepting, h.submachine⟩⟩

/-- The same states up to the order of their transitions. -/
def MachineDocument.SameUpToOrder (a b : MachineDocument) : Prop :=
  a.states.Related StateDocument.SameUpToOrder b.states

instance (a b : MachineDocument) : Decidable (a.SameUpToOrder b) :=
  inferInstanceAs (Decidable (a.states.Related _ b.states))

/-- The same machines up to the order of the transitions of their states. -/
def ProjectDocument.SameUpToOrder (a b : ProjectDocument) : Prop :=
  a.Related MachineDocument.SameUpToOrder b

instance (a b : ProjectDocument) : Decidable (a.SameUpToOrder b) :=
  inferInstanceAs (Decidable (NameMap.Related _ a b))

theorem StateDocument.SameUpToOrder.refl (a : StateDocument) : a.SameUpToOrder a :=
  ⟨.refl _, rfl, rfl⟩

theorem StateDocument.SameUpToOrder.symm {a b : StateDocument} (h : a.SameUpToOrder b) :
    b.SameUpToOrder a :=
  ⟨h.transitions.symm, h.accepting.symm, h.submachine.symm⟩

theorem MachineDocument.SameUpToOrder.symm {a b : MachineDocument} (h : a.SameUpToOrder b) :
    b.SameUpToOrder a :=
  NameMap.Related.symm StateDocument.SameUpToOrder.symm h

theorem ProjectDocument.SameUpToOrder.refl (a : ProjectDocument) : a.SameUpToOrder a :=
  NameMap.Related.refl (fun m => NameMap.Related.refl StateDocument.SameUpToOrder.refl m.states) a

theorem ProjectDocument.SameUpToOrder.symm {a b : ProjectDocument} (h : a.SameUpToOrder b) :
    b.SameUpToOrder a :=
  NameMap.Related.symm MachineDocument.SameUpToOrder.symm h

/-! ## Machines -/

/-- Machines whose descriptions are the same up to the order of transitions. -/
structure Machine.DescribedAlike (m m' : Machine) : Prop where
  left : m.WellFormed
  right : m'.WellFormed
  document : m.toDocument.SameUpToOrder m'.toDocument

namespace Machine.DescribedAlike

variable {m m' : Machine} {handle : Handle} {state : State}

theorem symm (h : m.DescribedAlike m') : m'.DescribedAlike m :=
  ⟨h.right, h.left, h.document.symm⟩

theorem exists_state (h : m.DescribedAlike m') (hstate : m.stateAt? handle = some state) :
    ∃ handle' state', m'.stateAt? handle' = some state' ∧ state'.name = state.name ∧
      (m.describeState state).SameUpToOrder (m'.describeState state') := by
  have hdescription : m.toDocument.states.find? state.name = some (m.describeState state) := by
    rw [h.left.find?_toDocument]
    exact h.left.description?_eq_some_iff.mpr ⟨state, mem_live_of_stateAt? hstate, rfl, rfl⟩
  obtain ⟨d, hd, hsame⟩ := NameMap.Related.exists_find? h.document hdescription
  rw [h.right.find?_toDocument] at hd
  obtain ⟨state', hlive, hname, rfl⟩ := h.right.description?_eq_some_iff.mp hd
  obtain ⟨handle', hstate'⟩ := exists_stateAt?_of_mem_live hlive
  exact ⟨handle', state', hstate', hname, hsame⟩

theorem exists_start (h : m.DescribedAlike m') (hstart : m.start? = some (handle, state)) :
    ∃ handle' state', m'.start? = some (handle', state') ∧ state'.submachine = state.submachine := by
  obtain ⟨hstate, hname⟩ := h.left.start?_eq_some_iff.mp hstart
  obtain ⟨handle', state', hstate', hname', hsame⟩ := h.exists_state hstate
  exact ⟨handle', state', h.right.start?_eq_some_iff.mpr ⟨hstate', hname'.trans hname⟩,
    hsame.submachine.symm⟩

theorem start?_eq_none (h : m.DescribedAlike m') (hnone : m.start? = none) : m'.start? = none := by
  rw [Option.eq_none_iff_forall_ne_some]
  rintro ⟨handle', state'⟩ hstart'
  obtain ⟨_, _, hstart, -⟩ := h.symm.exists_start hstart'
  rw [hnone] at hstart
  cases hstart

/-- The path to a state leads to the state of the same name in the other machine. A transition that
leads nowhere is on no such path. -/
theorem exists_reachable (h : m.DescribedAlike m') (hreachable : m.Reachable handle)
    (hstate : m.stateAt? handle = some state) :
    ∃ handle' state', m'.stateAt? handle' = some state' ∧ state'.name = state.name ∧
      m'.Reachable handle' := by
  induction hreachable generalizing state with
  | @start handle first hstart =>
    obtain ⟨hfirst, hname⟩ := h.left.start?_eq_some_iff.mp hstart
    rw [hstate] at hfirst
    cases hfirst
    obtain ⟨handle', state', hstate', hname', -⟩ := h.exists_state hstate
    have hstart' := h.right.start?_eq_some_iff.mpr ⟨hstate', hname'.trans hname⟩
    exact ⟨handle', state', hstate', hname', .start hstart'⟩
  | @follow source origin id t _ horigin hstored ih =>
    obtain ⟨source', origin', horigin', hname, hsource⟩ := ih horigin
    have hdescribe : m.describe? t = some _ := describe?_eq_some_iff.mpr ⟨state, hstate, rfl⟩
    -- The state behind the source is the only one of its name, so it is described alike.
    obtain ⟨found, other, hother, hothername, hsame⟩ := h.exists_state horigin
    have hfound := h.right.indexed.handle_eq_of_name_eq hother horigin' (hothername.trans hname.symm)
    rw [hfound, horigin'] at hother
    cases hother
    have hlisted := mem_transitions_describeState.mpr ⟨(id, t), hstored, hdescribe⟩
    rw [hsame.transitions.mem_iff] at hlisted
    obtain ⟨⟨id', t'⟩, hstored', hdescribe'⟩ := mem_transitions_describeState.mp hlisted
    obtain ⟨⟨state₀, state', hstate₀, hstate', hname'⟩, -⟩ := fields_of_describe? hdescribe hdescribe'
    rw [hstate] at hstate₀
    cases hstate₀
    exact ⟨t'.destination, state', hstate', hname'.symm, .follow hsource horigin' hstored'⟩

theorem unreached (h : m.DescribedAlike m') {name : String} (hname : m.Unreached name) :
    m'.Unreached name := by
  obtain ⟨handle, state, hstate, rfl, hnot⟩ := hname
  obtain ⟨handle', state', hstate', hname', -⟩ := h.exists_state hstate
  refine ⟨handle', state', hstate', hname', fun hreachable => hnot ?_⟩
  obtain ⟨found, other, hother, hothername, hfound⟩ := h.symm.exists_reachable hreachable hstate'
  exact h.left.indexed.handle_eq_of_name_eq hother hstate (hothername.trans hname') ▸ hfound

theorem unreached_iff (h : m.DescribedAlike m') {name : String} :
    m.Unreached name ↔ m'.Unreached name :=
  ⟨h.unreached, h.symm.unreached⟩

end Machine.DescribedAlike

/-! ## Projects -/

/-- Projects whose descriptions are the same up to the order of transitions. -/
structure Project.DescribedAlike (p q : Project) : Prop where
  left : p.WellFormed
  right : q.WellFormed
  documents : p.toDocuments.SameUpToOrder q.toDocuments

namespace Project.DescribedAlike

variable {p q : Project} {m : Machine} {name : String}

theorem symm (h : p.DescribedAlike q) : q.DescribedAlike p :=
  ⟨h.right, h.left, h.documents.symm⟩

theorem exists_machine (h : p.DescribedAlike q) (hm : p.machine? name = some m) :
    ∃ m', q.machine? name = some m' ∧ m.DescribedAlike m' := by
  have hdocument : p.toDocuments.find? name = some m.toDocument := by
    rw [h.left.find?_toDocuments, hm, Option.map_some]
  obtain ⟨d, hd, hsame⟩ := NameMap.Related.exists_find? h.documents hdocument
  rw [h.right.find?_toDocuments, Option.map_eq_some_iff] at hd
  obtain ⟨m', hm', rfl⟩ := hd
  exact ⟨m', hm', h.left.of_machine? hm, h.right.of_machine? hm', hsame⟩

theorem exists_live (h : p.DescribedAlike q) (hm : m ∈ p.machines.live) :
    ∃ m' ∈ q.machines.live, m'.name = m.name ∧ m.DescribedAlike m' := by
  obtain ⟨m', hm', hsame⟩ := h.exists_machine (h.left.machine?_eq_some_iff.mpr ⟨hm, rfl⟩)
  obtain ⟨hlive, hname⟩ := h.right.machine?_eq_some_iff.mp hm'
  exact ⟨m', hlive, hname, hsame⟩

theorem machine?_eq_none (h : p.DescribedAlike q) (hnone : p.machine? name = none) :
    q.machine? name = none := by
  rw [Option.eq_none_iff_forall_ne_some]
  intro m' hm'
  obtain ⟨_, hm, -⟩ := h.symm.exists_machine hm'
  rw [hnone] at hm
  cases hm

theorem calls (h : p.DescribedAlike q) {a b : String} (hcalls : p.Calls a b) : q.Calls a b := by
  obtain ⟨m, next, hm, hnext, rfl⟩ := hcalls
  obtain ⟨handle, state, name, hstart, hsub, hname⟩ := next?_eq_some_iff.mp hnext
  obtain ⟨m', hm', hsame⟩ := h.exists_machine hm
  obtain ⟨handle', state', hstart', hsub'⟩ := hsame.exists_start hstart
  obtain ⟨next', hnext', -⟩ := h.exists_machine hname
  refine ⟨m', next', hm',
    next?_eq_some_iff.mpr ⟨handle', state', name, hstart', hsub'.trans hsub, hnext'⟩, ?_⟩
  rw [(h.left.machine?_eq_some_iff.mp hname).2, (h.right.machine?_eq_some_iff.mp hnext').2]

theorem isLoop (h : p.DescribedAlike q) {loop : List String} (hloop : p.IsLoop loop) :
    q.IsLoop loop := by
  obtain ⟨first, rest, hbegin, hcircle⟩ := hloop.circle
  exact ⟨hloop.nodup, first, rest, hbegin, hcircle.imp fun _ _ => h.calls⟩

/-- Every finding in one project is one in the other. -/
theorem mem_analyze (h : p.DescribedAlike q) {issue : Issue} (hissue : issue ∈ p.analyze) :
    issue ∈ q.analyze := by
  cases issue with
  | missingStartState machine =>
    obtain ⟨m, hm, hnone, rfl⟩ := missingStartState_mem_analyze.mp hissue
    obtain ⟨m', hm', hname, hsame⟩ := h.exists_live hm
    exact missingStartState_mem_analyze.mpr ⟨m', hm', hsame.start?_eq_none hnone, hname⟩
  | unknownSubmachine machine state submachine =>
    obtain ⟨m, hm, s, hs, hsub, hnone, rfl, rfl⟩ := unknownSubmachine_mem_analyze.mp hissue
    obtain ⟨m', hm', hname, hsame⟩ := h.exists_live hm
    obtain ⟨handle, hstate⟩ := Machine.exists_stateAt?_of_mem_live hs
    obtain ⟨handle', s', hs', hname', hdescribed⟩ := hsame.exists_state hstate
    exact unknownSubmachine_mem_analyze.mpr ⟨m', hm', s', Machine.mem_live_of_stateAt? hs',
      hdescribed.submachine.symm.trans hsub, h.machine?_eq_none hnone, hname, hname'⟩
  | unreachableStates machine names =>
    obtain ⟨m, hm, rfl, ⟨s, hs, hstart⟩, hne, hsorted, hmem⟩ :=
      h.left.unreachableStates_mem_analyze_iff.mp hissue
    obtain ⟨m', hm', hname, hsame⟩ := h.exists_live hm
    obtain ⟨handle, hstate⟩ := Machine.exists_stateAt?_of_mem_live hs
    obtain ⟨handle', s', hs', hname', -⟩ := hsame.exists_state hstate
    exact h.right.unreachableStates_mem_analyze_iff.mpr ⟨m', hm', hname,
      ⟨s', Machine.mem_live_of_stateAt? hs', hname'.trans hstart⟩, hne, hsorted,
      fun name => (hmem name).trans hsame.unreached_iff⟩
  | submachineCycle names =>
    rw [submachineCycle_mem_analyze] at hissue ⊢
    obtain ⟨hloop, hleast⟩ := (mem_callLoops_iff h.left).mp hissue
    exact (mem_callLoops_iff h.right).mpr ⟨h.isLoop hloop, hleast⟩

theorem analyze_eq (h : p.DescribedAlike q) : p.analyze = q.analyze :=
  analyze_eq_of_mem_iff h.left h.right fun _ => ⟨h.mem_analyze, h.symm.mem_analyze⟩

end Project.DescribedAlike

namespace Project

/-- A report is determined by the documents of a project, up to the order of the transitions, and so
is the first finding. A report is strictly increasing, and it is the same after the project was built
again from its documents. -/
theorem analysis_of_documents {next : Identity} {p : Project} (hp : p.Built next) :
    (∀ (next' : Identity) (q : Project), q.Built next' →
      p.toDocuments.SameUpToOrder q.toDocuments →
        p.analyze = q.analyze ∧ p.validate = q.validate) ∧
    p.analyze.Pairwise Issue.Before ∧
    ∀ first, ∃ q next', ofDocuments first p.toDocuments = .ok (q, next') ∧
      q.analyze = p.analyze ∧ q.validate = p.validate := by
  have hwf := hp.wellFormed
  have hsame : ∀ (next' : Identity) (q : Project), q.Built next' →
      p.toDocuments.SameUpToOrder q.toDocuments →
        p.analyze = q.analyze ∧ p.validate = q.validate := by
    intro next' q hq hdocuments
    have hanalyze : p.analyze = q.analyze :=
      DescribedAlike.analyze_eq ⟨hwf, hq.wellFormed, hdocuments⟩
    exact ⟨hanalyze, by rw [validate, validate, hanalyze]⟩
  refine ⟨hsame, pairwise_analyze hwf, fun first => ?_⟩
  obtain ⟨q, next', hq, hdocuments⟩ := hwf.ofDocuments_toDocuments first
  obtain ⟨hanalyze, hvalidate⟩ :=
    hsame next' q (.described hq) (hdocuments ▸ ProjectDocument.SameUpToOrder.refl _)
  exact ⟨q, next', hq, hanalyze.symm, hvalidate.symm⟩

/-- The sample with the islands, with a call of a machine that is missing, beside a machine that cannot
be entered. -/
def ferrySample : Project × Identity :=
  [Edit.editMachine "main" (.editState "port" (.setSubmachine (some "ferry"))),
    .addMachine "bare"].foldl (fun built edit => edit.apply built) islandSample

theorem built_ferrySample : ferrySample.1.Built ferrySample.2 :=
  built_islandSample.foldl_edit _

/-- The same machines, built in another order and under other names, beside a machine that was removed
again. No transition of them leads nowhere. -/
def ferryRebuilt : Project × Identity :=
  [Edit.addMachine "spare",
    .addMachine "bare",
    .addMachine "sea",
    .editMachine "sea" (.addState "atoll"),
    .editMachine "sea" (.addState "start"),
    .editMachine "sea" (.addState "harbour"),
    .editMachine "sea" (.editState "harbour" (.setSubmachine (some "ferry"))),
    .editMachine "sea" (.addTransition "atoll" "harbour" "2" none .right),
    .editMachine "sea" (.addState "island"),
    .editMachine "sea" (.addTransition "atoll" "island" "1" none .right),
    .editMachine "sea" (.addTransition "island" "atoll" "1" none .right),
    .editMachine "sea" (.addTransition "harbour" "start" "1" none .left),
    .editMachine "sea" (.addTransition "start" "harbour" "1" none .right),
    .editMachine "sea" (.renameState "harbour" "port"),
    .renameMachine "sea" "main",
    .removeMachine "spare"].foldl (fun built edit => edit.apply built) (Project.new 0, 1)

theorem built_ferryRebuilt : ferryRebuilt.1.Built ferryRebuilt.2 :=
  (Built.new 0).foldl_edit _

/-- The findings in their order. -/
def ferryReport : List Issue :=
  [.missingStartState "bare", .unknownSubmachine "main" "port" "ferry",
    .unreachableStates "main" ["atoll", "island"]]

theorem analyze_ferrySample : ferrySample.1.analyze = ferryReport := by
  have hwf := built_ferrySample.wellFormed
  have hmissing : ferrySample.1.missingStartStates = [.missingStartState "bare"] := by
    decide +kernel
  have hunknown : ferrySample.1.unknownSubmachines = [.unknownSubmachine "main" "port" "ferry"] := by
    decide +kernel
  have hcycles : ferrySample.1.submachineCycles = [] := by decide +kernel
  have hunreachable : ferrySample.1.unreachableStates =
      [.unreachableStates "main" ["atoll", "island"]] := by
    let main := (ferrySample.1.machine? "main").get rfl
    let bare := (ferrySample.1.machine? "bare").get rfl
    have hlive : ferrySample.1.machines.live = [main, bare] := rfl
    have hfound : main.unreachableStates? = some ["island", "atoll"] := by decide +kernel
    have hmain : unreachableIssue? main = some (.unreachableStates "main" ["atoll", "island"]) :=
      unreachableIssue?_eq_some_iff.mpr ⟨_, hfound, by simp, by rw [mergeSort_islands]; rfl⟩
    have hbare : unreachableIssue? bare = none := by decide +kernel
    rw [unreachableStates, hlive, List.filterMap_cons_some hmain, List.filterMap_cons_none hbare,
      List.filterMap_nil]
  refine eq_of_pairwise_of_mem_iff Issue.Before.asymm (pairwise_analyze hwf) ?_ fun issue => ?_
  · simp [ferryReport, Issue.Before, Issue.rank]
  · rw [mem_analyze, hmissing, hunknown, hunreachable, hcycles]
    simp [ferryReport]

/-- Three findings are reported in the same order in both projects, and again after the first was built
from its documents. Each of the three projects fails with the first of them. -/
theorem ferry_of_documents :
    ferrySample.1.analyze = ferryReport ∧ ferryReport.Pairwise Issue.Before ∧
    ferrySample.1.validate = .error (.validation "Machine bare has no start state") ∧
    ferryRebuilt.1.analyze = ferryReport ∧
    ferryRebuilt.1.validate = .error (.validation "Machine bare has no start state") ∧
    ∃ q next', ofDocuments 7 ferrySample.1.toDocuments = .ok (q, next') ∧
      q.analyze = ferryReport ∧
      q.validate = .error (.validation "Machine bare has no start state") := by
  obtain ⟨hsame, hordered, hreload⟩ := analysis_of_documents built_ferrySample
  have hreport := analyze_ferrySample
  have hdocuments : ferrySample.1.toDocuments.SameUpToOrder ferryRebuilt.1.toDocuments := by
    decide +kernel
  have hfails : ferrySample.1.validate = .error (.validation "Machine bare has no start state") :=
    Project.validate_eq_error_iff.mpr ⟨.missingStartState "bare", by rw [hreport]; rfl, rfl⟩
  obtain ⟨hanalyze, hvalidate⟩ := hsame _ _ built_ferryRebuilt hdocuments
  obtain ⟨q, next', hq, hanalyze', hvalidate'⟩ := hreload 7
  rw [hreport] at hordered hanalyze hanalyze'
  rw [hfails] at hvalidate hvalidate'
  exact ⟨hreport, hordered, hfails, hanalyze.symm, hvalidate.symm, q, next', hq, hanalyze', hvalidate'⟩

end Project

end HierarchicalTuring
