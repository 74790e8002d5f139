import HierarchicalTuring.Proofs.Document.RoundTrip
import HierarchicalTuring.Proofs.Simulation.Lockstep

/-! # Projects that are described alike run alike

Two closed projects with the same documents may keep their machines and states in other slots and
under other identities.

* `Frame.Alike` relates frames by the names of their machines and states. In projects with the same
  documents such frames are described alike (`SameDocuments.describeState_eq`), so their transitions
  and calls lead to frames that are alike again (`SameDocuments.lockstep`).
* `Project.Built.reload_keeps_documents_and_runs`: describing a project and building it again loses
  nothing and changes no run.
-/

set_option autoImplicit false

namespace HierarchicalTuring

namespace Machine

variable {m : Machine} {s : State} {c : Char}

/-! ## Transitions by their descriptions -/

theorem Closed.describe?_of_transitionFor? (hclosed : m.Closed) (hs : s ∈ m.states.live)
    (hindexed : s.Indexed) {t : Transition} (h : s.transitionFor? c = some t) :
    ∃ d ∈ (m.describeState s).transitions, c ∈ d.input.toList ∧ m.describe? t = some d := by
  obtain ⟨id, hstored, hc⟩ := hindexed.transitionFor?_eq_some_iff.mp h
  obtain ⟨d, hd⟩ := hclosed.exists_describe? hs hstored
  refine ⟨d, mem_transitions_describeState.mpr ⟨_, hstored, hd⟩, ?_, hd⟩
  rwa [input_of_describe? hd]

theorem transitionFor?_of_mem_describeState (hindexed : s.Indexed) {d : TransitionDocument}
    (hd : d ∈ (m.describeState s).transitions) (hc : c ∈ d.input.toList) :
    ∃ t, s.transitionFor? c = some t ∧ m.describe? t = some d := by
  obtain ⟨⟨id, t⟩, hstored, hdescribe⟩ := mem_transitions_describeState.mp hd
  rw [input_of_describe? hdescribe] at hc
  exact ⟨t, hindexed.transitionFor?_eq_some_iff.mpr ⟨id, hstored, hc⟩, hdescribe⟩

theorem WellFormed.exists_start?_iff (hm : m.WellFormed) :
    (∃ found, m.start? = some found) ↔ ∃ d, m.description? startStateName = some d := by
  constructor
  · rintro ⟨⟨handle, state⟩, hfound⟩
    obtain ⟨hstate, hname⟩ := hm.start?_eq_some_iff.mp hfound
    exact ⟨_, hm.description?_eq_some_iff.mpr ⟨state, mem_live_of_stateAt? hstate, hname, rfl⟩⟩
  · rintro ⟨d, hd⟩
    obtain ⟨state, hlive, hname, -⟩ := hm.description?_eq_some_iff.mp hd
    obtain ⟨handle, hstate⟩ := exists_stateAt?_of_mem_live hlive
    exact ⟨(handle, state), hm.start?_eq_some_iff.mpr ⟨hstate, hname⟩⟩

end Machine

/-- Two closed projects are described by the same documents. -/
structure Project.SameDocuments (p q : Project) : Prop where
  left : p.WellFormed
  right : q.WellFormed
  leftClosed : p.Closed
  rightClosed : q.Closed
  documents : p.toDocuments = q.toDocuments

/-- Valid frames in machines of the same name and states of the same name. -/
structure Frame.Alike (p q : Project) (f g : Frame) : Prop where
  left : f.Valid p
  right : g.Valid q
  machine : f.machine.name = g.machine.name
  state : f.state.name = g.state.name

namespace Project.SameDocuments

variable {p q : Project} {f g : Frame}

/-! ## Machines -/

theorem machine?_cases (h : p.SameDocuments q) (name : String) :
    (p.machine? name = none ∧ q.machine? name = none) ∨
      ∃ m m', p.machine? name = some m ∧ q.machine? name = some m' ∧
        m.toDocument = m'.toDocument := by
  have hfind : (p.machine? name).map Machine.toDocument =
      (q.machine? name).map Machine.toDocument := by
    rw [← h.left.find?_toDocuments, ← h.right.find?_toDocuments, h.documents]
  cases hm : p.machine? name with
  | none =>
    rw [hm, Option.map_none, eq_comm, Option.map_eq_none_iff] at hfind
    exact .inl ⟨rfl, hfind⟩
  | some m =>
    rw [hm, Option.map_some, eq_comm, Option.map_eq_some_iff] at hfind
    obtain ⟨m', hm', heq⟩ := hfind
    exact .inr ⟨m, m', rfl, hm', heq.symm⟩

theorem toDocument_eq (h : p.SameDocuments q) {name : String} {m m' : Machine}
    (hm : p.machine? name = some m) (hm' : q.machine? name = some m') :
    m.toDocument = m'.toDocument := by
  obtain ⟨hnone, -⟩ | ⟨n, n', hn, hn', heq⟩ := h.machine?_cases name
  · rw [hm] at hnone
    cases hnone
  · rw [hm] at hn
    rw [hm'] at hn'
    cases hn
    cases hn'
    exact heq

theorem length_toDocuments (hp : p.WellFormed) : p.toDocuments.entries.length = p.machineCount := by
  have hnodup : ((p.machines.live.map fun m => (m.name, m.toDocument)).map Prod.fst).Nodup := by
    rw [List.map_map]
    exact hp.indexed.nodup_names
  rw [toDocuments, (NameMap.perm_ofList hnodup).length_eq, List.length_map]
  exact hp.indexed.size_eq.symm

theorem machineCount_eq (h : p.SameDocuments q) : p.machineCount = q.machineCount := by
  rw [← length_toDocuments h.left, ← length_toDocuments h.right, h.documents]

theorem description?_eq {m m' : Machine} (hm : m.WellFormed) (hm' : m'.WellFormed)
    (hdocument : m.toDocument = m'.toDocument) (name : String) :
    m.description? name = m'.description? name := by
  rw [← hm.find?_toDocument, ← hm'.find?_toDocument, hdocument]

/-! ## Frames -/

/-- Frames that are alike are described alike. -/
theorem describeState_eq (h : p.SameDocuments q) (hfg : f.Alike p q g) :
    f.machine.describeState f.state = g.machine.describeState g.state := by
  have hf := hfg.left.wellFormed h.left
  have hg := hfg.right.wellFormed h.right
  have hdocument : f.machine.toDocument = g.machine.toDocument :=
    h.toDocument_eq (hfg.machine ▸ hfg.left.machine?_eq) hfg.right.machine?_eq
  have hleft : f.machine.description? f.state.name = some (f.machine.describeState f.state) :=
    hf.description?_eq_some_iff.mpr ⟨f.state, hfg.left.mem_live, rfl, rfl⟩
  have hright : g.machine.description? f.state.name = some (g.machine.describeState g.state) :=
    hg.description?_eq_some_iff.mpr ⟨g.state, hfg.right.mem_live, hfg.state.symm, rfl⟩
  rw [description?_eq hf hg hdocument, hright] at hleft
  exact (Option.some.inj hleft).symm

theorem accepting_eq (h : p.SameDocuments q) (hfg : f.Alike p q g) :
    f.state.accepting = g.state.accepting :=
  congrArg StateDocument.accepting (h.describeState_eq hfg)

theorem submachine_eq (h : p.SameDocuments q) (hfg : f.Alike p q g) :
    f.state.submachine = g.state.submachine :=
  congrArg StateDocument.submachine (h.describeState_eq hfg)

theorem transition_cases (h : p.SameDocuments q) (hfg : f.Alike p q g) (c : Char) :
    (f.state.transitionFor? c = none ∧ g.state.transitionFor? c = none) ∨
      ∃ t u d, f.state.transitionFor? c = some t ∧ g.state.transitionFor? c = some u ∧
        f.machine.describe? t = some d ∧ g.machine.describe? u = some d := by
  have hsame := h.describeState_eq hfg
  have hclosed := h.leftClosed _ (h.left.machine?_eq_some_iff.mp hfg.left.machine?_eq).1
  have hclosed' := h.rightClosed _ (h.right.machine?_eq_some_iff.mp hfg.right.machine?_eq).1
  cases hf : f.state.transitionFor? c with
  | some t =>
    obtain ⟨d, hd, hc, ht⟩ :=
      hclosed.describe?_of_transitionFor? hfg.left.mem_live (hfg.left.indexed h.left) hf
    rw [hsame] at hd
    obtain ⟨u, hg, hu⟩ :=
      Machine.transitionFor?_of_mem_describeState (hfg.right.indexed h.right) hd hc
    exact .inr ⟨t, u, d, rfl, hg, ht, hu⟩
  | none =>
    refine .inl ⟨rfl, ?_⟩
    cases hg : g.state.transitionFor? c with
    | none => rfl
    | some u =>
      obtain ⟨d, hd, hc, -⟩ :=
        hclosed'.describe?_of_transitionFor? hfg.right.mem_live (hfg.right.indexed h.right) hg
      rw [← hsame] at hd
      obtain ⟨t, ht, -⟩ :=
        Machine.transitionFor?_of_mem_describeState (hfg.left.indexed h.left) hd hc
      rw [hf] at ht
      cases ht

theorem start_agree (h : p.SameDocuments q) {name : String} {m m' : Machine}
    (hm : p.machine? name = some m) (hm' : q.machine? name = some m') :
    Agree Eq (Frame.Alike p q) (Frame.start m) (Frame.start m') := by
  have hname := (h.left.machine?_eq_some_iff.mp hm).2
  have hname' := (h.right.machine?_eq_some_iff.mp hm').2
  have hwf := h.left.of_machine? hm
  have hwf' := h.right.of_machine? hm'
  have hboth : (∃ found, m.start? = some found) ↔ ∃ found, m'.start? = some found := by
    rw [hwf.exists_start?_iff, hwf'.exists_start?_iff,
      description?_eq hwf hwf' (h.toDocument_eq hm hm')]
  cases hfound : m.start? with
  | none =>
    have hfound' : m'.start? = none := by
      rw [Option.eq_none_iff_forall_ne_some]
      intro found' hfound'
      obtain ⟨found, hsome⟩ := hboth.mpr ⟨found', hfound'⟩
      rw [hfound] at hsome
      cases hsome
    rw [Frame.start_eq_error_iff.mpr ⟨hfound, rfl⟩, Frame.start_eq_error_iff.mpr ⟨hfound', rfl⟩]
    exact .error (by rw [hname, hname'])
  | some found =>
    obtain ⟨found', hfound'⟩ := hboth.mp ⟨found, hfound⟩
    have hstart := Frame.start_of_found hfound
    have hstart' := Frame.start_of_found hfound'
    rw [hstart, hstart']
    refine .ok ⟨(Frame.valid_of_start h.left hm hstart).1,
      (Frame.valid_of_start h.right hm' hstart').1, hname.trans hname'.symm, ?_⟩
    exact (hwf.start?_eq_some_iff.mp hfound).2.trans (hwf'.start?_eq_some_iff.mp hfound').2.symm

theorem entered_agree (h : p.SameDocuments q) (name : String) :
    Option.Rel (fun m m' => Agree Eq (Frame.Alike p q) (Frame.start m) (Frame.start m'))
      (p.machine? name) (q.machine? name) := by
  obtain ⟨hnone, hnone'⟩ | ⟨m, m', hm, hm', -⟩ := h.machine?_cases name
  · rw [hnone, hnone']
    exact .none
  · rw [hm, hm']
    exact .some (h.start_agree hm hm')

theorem callee_agree (h : p.SameDocuments q) (hfg : f.Alike p q g) :
    Agree Eq (Option.Rel fun x y => x.2.Alike p q y.2 ∧ ∀ depth,
      SimulationError.infiniteSubmachineLoop x.1 depth = .infiniteSubmachineLoop y.1 depth)
      (f.callee? p) (g.callee? q) := by
  refine CallStack.callee_agree (h.submachine_eq hfg) fun name _ =>
    ⟨h.entered_agree name, ?_, fun _ => rfl⟩
  rw [hfg.state, hfg.machine]

theorem lockstep (h : p.SameDocuments q) : Lockstep p q (Frame.Alike p q) Eq where
  accepting := h.accepting_eq
  transition := by
    intro f g hfg c
    obtain hnone | ⟨t, u, d, hf, hg, ht, hu⟩ := h.transition_cases hfg c
    · exact .inl hnone
    · obtain ⟨⟨a, b, ha, hb, hname⟩, -, houtput, hdirection⟩ := Machine.fields_of_describe? ht hu
      exact .inr ⟨t, u, hf, hg, houtput, hdirection, .inr ⟨a, b, ha, hb, hfg.left.moved ha,
        hfg.right.moved hb, hfg.machine, hname⟩⟩
  enter := fun hmatches => by
    have hagree := CallStack.enter_agree h.machineCount_eq h.callee_agree hmatches p.machineCount
    rwa [← h.machineCount_eq]

theorem start_simulation (h : p.SameDocuments q) (name : String) (tape : Tape) :
    Agree Eq (Simulation.Matches p q (Frame.Alike p q)) (Simulation.start p name tape)
      (Simulation.start q name tape) :=
  h.lockstep.start_agree (h.entered_agree name) rfl tape

end Project.SameDocuments

/-! ## Loading what was saved -/

/-- What a simulation shows: its machines and states by name, the outermost first, its head, the
number of its steps and its status. -/
def Simulation.observed (s : Simulation) : List (String × String) × Head × Nat × Status :=
  (s.frames.map fun frame => (frame.machine.name, frame.state.name), s.head, s.stepCount, s.status)

theorem Simulation.Matches.observed_eq {p q : Project} {s t : Simulation}
    (h : s.Matches p q (Frame.Alike p q) t) : s.observed = t.observed := by
  have hnames : s.frames.map (fun frame => (frame.machine.name, frame.state.name)) =
      t.frames.map fun frame => (frame.machine.name, frame.state.name) := by
    have hframes : List.Forall₂ (Frame.Alike p q) s.frames t.frames := h.stack.frames
    generalize s.frames = left, t.frames = right at hframes ⊢
    induction hframes with
    | nil => rfl
    | cons halike _ ih => rw [List.map_cons, List.map_cons, ih, halike.machine, halike.state]
  rw [observed, observed, hnames, h.head, h.stepCount, h.status]

/-- The documents of a project describe a project with the same documents. If every stored
destination resolves, the two projects start alike on every machine and tape, and run alike for any
number of steps. -/
theorem Project.Built.reload_keeps_documents_and_runs {next : Identity} {p : Project}
    (hp : p.Built next) (first : Identity) :
    ∃ q next', Project.ofDocuments first p.toDocuments = .ok (q, next') ∧
      q.toDocuments = p.toDocuments ∧
      (p.Closed → ∀ name tape,
        (∀ e, Simulation.start p name tape = .error e ↔ Simulation.start q name tape = .error e) ∧
        ∀ s, Simulation.start p name tape = .ok s →
          ∃ t, Simulation.start q name tape = .ok t ∧ ∀ n,
            (s.runFor n).1 = (t.runFor n).1 ∧
              (s.runFor n).2.observed = (t.runFor n).2.observed) := by
  have hwf := hp.wellFormed
  obtain ⟨q, next', hq, hdocuments⟩ := hwf.ofDocuments_toDocuments first
  refine ⟨q, next', hq, hdocuments, fun hclosed name tape => ?_⟩
  obtain ⟨hqwf, hqclosed⟩ := Project.ofDocuments_keeps hq
  have hsame : p.SameDocuments q := ⟨hwf, hqwf, hclosed, hqclosed, hdocuments.symm⟩
  have hagree := hsame.start_simulation name tape
  generalize Simulation.start p name tape = left, Simulation.start q name tape = right at hagree ⊢
  cases hagree with
  | error he =>
    subst he
    refine ⟨fun e => Iff.rfl, fun s hs => ?_⟩
    cases hs
  | @ok s t hmatches =>
    constructor
    · intro e
      constructor <;> intro he <;> cases he
    · intro s' hs'
      cases hs'
      refine ⟨t, rfl, fun n => ?_⟩
      obtain ⟨hresult, hleft⟩ := hsame.lockstep.runFor hmatches n
      exact ⟨hresult.eq, hleft.observed_eq⟩

/-- The sample project, described and built again, accepts what it accepted. -/
theorem Project.sample_reloaded : ∃ q next' s t,
    Project.ofDocuments Project.sample.2 Project.sample.1.toDocuments = .ok (q, next') ∧
      q.toDocuments = Project.sample.1.toDocuments ∧
      Simulation.start Project.sample.1 "main" (.ofText "111+" '_') = .ok s ∧
      Simulation.start q "main" (.ofText "111+" '_') = .ok t ∧
      (s.runFor 9).1 = .ok .accepted ∧ (t.runFor 9).1 = .ok .accepted ∧
      (s.runFor 9).2.observed = (t.runFor 9).2.observed := by
  obtain ⟨q, next', hq, hdocuments, hruns⟩ :=
    Project.built_sample.reload_keeps_documents_and_runs Project.sample.2
  let s := ((Simulation.start Project.sample.1 "main" (.ofText "111+" '_')).toOption).get rfl
  have hs : Simulation.start Project.sample.1 "main" (.ofText "111+" '_') = .ok s := rfl
  have haccepted : (s.runFor 9).1 = .ok .accepted := by decide +kernel
  obtain ⟨t, ht, hsame⟩ := (hruns Project.closed_sample "main" (.ofText "111+" '_')).2 s hs
  obtain ⟨hresult, hobserved⟩ := hsame 9
  exact ⟨q, next', s, t, hq, hdocuments, hs, ht, haccepted, hresult ▸ haccepted, hobserved⟩

end HierarchicalTuring
