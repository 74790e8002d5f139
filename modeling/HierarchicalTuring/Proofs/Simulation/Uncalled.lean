import HierarchicalTuring.Proofs.Analysis.Prediction
import HierarchicalTuring.Proofs.Project.Lookup
import HierarchicalTuring.Proofs.Simulation.CallDepth

/-! # Machines that are never called

A machine that is added to a project and never called changes no run of the others, though it raises
the limit for the calls that are followed.

* `Project.Edit.staysAt h`: a change that concerns no machine but the one behind a handle. Such
  changes leave every other handle as it is (`Edit.machineAt?_foldl`).
* `Project.ExtendsTo p q`: the machines of `p` are machines of `q`, and no other machine of `q` is
  called by them. From a frame of `p`, calls are followed in `q` as in `p`, or they never end in
  either (`ExtendsTo.enter_cases`).
* `Simulation.Beside q`: the two ways in which a step or a run can compare. Steps and bounded runs
  keep to them (`ExtendsTo.step`, `ExtendsTo.runFor`).
* `Project.Built.uncalled_machine_changes_no_run` puts these together.
-/

set_option autoImplicit false

namespace HierarchicalTuring

namespace Project

variable {p q : Project} {h : Handle}

/-! ## Changes of one machine -/

/-- Whether a change concerns the machine behind a handle, or no machine at all. -/
def Edit.staysAt (h : Handle) (p : Project) : Edit → Bool
  | addMachine _ => false
  | renameMachine name _ => (p.machineHandle? name).all (· = h)
  | removeMachine name => (p.machineHandle? name).all (· = h)
  | editMachine name _ => (p.machineHandle? name).all (· = h)
  | editMachineAt handle _ => handle = h

/-- Whether each of some changes, made one after the other, stays at the machine. -/
def Edit.allStayAt (h : Handle) : List Edit → Project × Identity → Bool
  | [], _ => true
  | edit :: edits, built => edit.staysAt h built.1 && allStayAt h edits (edit.apply built)

/-- The changed project has the same machines behind all other handles. -/
theorem Edit.machineAt?_apply (edit : Edit) (hp : p.WellFormed) (next : Identity)
    (hstays : edit.staysAt h p = true) {handle : Handle} (hne : handle ≠ h) :
    (edit.apply (p, next)).1.machineAt? handle = p.machineAt? handle := by
  have heq : ∀ {name : String} {found : Handle} {m : Machine},
      (p.machineHandle? name).all (· = h) = true → p.machineAt? found = some m → m.name = name →
      found = h := by
    intro name found m hall hm hname
    have hhandle : p.machineHandle? name = some found :=
      hp.indexed.handleOf?_eq_some_iff.mpr ⟨m, hm, hname⟩
    simpa [hhandle] using hall
  cases edit with
  | addMachine name => cases hstays
  | renameMachine name newName =>
    simp only [apply]
    split
    · next q hrename =>
      obtain ⟨found, machines, hhandle, hmachines, rfl⟩ := renameMachine_eq_ok_iff.mp hrename
      obtain ⟨m, hm, hname⟩ := hp.indexed.handleOf?_eq_some_iff.mp hhandle
      have hfound := heq hstays hm hname
      have hrenamed := Store.resolve?_of_rename hmachines handle
      rwa [if_neg (hfound ▸ hne)] at hrenamed
    · rfl
  | removeMachine name =>
    simp only [apply, removeMachine?, bind, Option.bind]
    cases hremove : p.machines.remove? name with
    | none => rfl
    | some removed =>
      obtain ⟨found, m, machines⟩ := removed
      obtain ⟨hm, hname, -⟩ := hp.indexed.remove?_eq_some_iff.mp hremove
      have hfound := heq hstays hm hname
      have hremoved := Store.resolve?_of_remove hp.indexed hremove handle
      rwa [if_neg (hfound ▸ hne)] at hremoved
  | editMachine name edit =>
    simp only [apply]
    cases hmodify : p.modifyMachine? name edit.apply with
    | none => rfl
    | some q =>
      obtain ⟨found, m, hm, hname, rfl⟩ := hp.modifyMachine?_eq_some_iff.mp hmodify
      exact Store.resolve?_put_of_ne hm _ (heq hstays hm hname ▸ hne)
  | editMachineAt found edit =>
    simp only [apply, modifyMachineAt?, bind, Option.bind]
    cases hmodify : p.machines.modifyAt? found edit.apply with
    | none => rfl
    | some machines =>
      obtain ⟨m, hm, rfl⟩ := Store.modifyAt?_eq_some_iff.mp hmodify
      exact Store.resolve?_put_of_ne hm _ (of_decide_eq_true hstays ▸ hne)

theorem Edit.machineAt?_foldl {next : Identity} {edits : List Edit} (hp : p.WellFormed)
    (hstay : Edit.allStayAt h edits (p, next) = true) {handle : Handle} (hne : handle ≠ h) :
    (edits.foldl (fun built edit => edit.apply built) (p, next)).1.machineAt? handle =
      p.machineAt? handle := by
  induction edits generalizing p next with
  | nil => rfl
  | cons edit edits ih =>
    obtain ⟨hfirst, hrest⟩ := (Bool.and_eq_true _ _).mp hstay
    exact (ih (edit.wellFormed_apply next hp) hrest).trans
      (edit.machineAt?_apply hp next hfirst hne)

/-! ## One machine more -/

/-- Every machine of `p` is one of `q`, and what is unknown to a call in `p` is unknown in `q`. -/
structure ExtendsTo (p q : Project) : Prop where
  machine? : ∀ {name : String} {m : Machine}, p.machine? name = some m → q.machine? name = some m
  unknown : ∀ m ∈ p.machines.live, ∀ state ∈ m.states.live, ∀ name,
    state.submachine = some name → p.machine? name = none → q.machine? name = none
  machineCount : p.machineCount ≤ q.machineCount

/-- A project extends to one that differs in a machine only, which the first one does not have and
does not call. -/
theorem WellFormed.extendsTo (hp : p.WellFormed) (hq : q.WellFormed)
    (hnew : p.machineAt? h = none)
    (hsame : ∀ handle, handle ≠ h → q.machineAt? handle = p.machineAt? handle)
    (huncalled : ∀ x, q.machineAt? h = some x → ∀ m ∈ p.machines.live, ∀ state ∈ m.states.live,
      state.submachine ≠ some x.name) : p.ExtendsTo q := by
  have hkept : ∀ m ∈ p.machines.live, m ∈ q.machines.live := by
    intro m hm
    obtain ⟨slot, hslot⟩ := Store.mem_live.mp hm
    have hat : p.machineAt? (p.machines.handleAt slot) = some m :=
      (p.machines.resolve?_handleAt slot).trans hslot
    have hne : p.machines.handleAt slot ≠ h := by
      intro heq
      rw [heq, hnew] at hat
      cases hat
    rw [← hsame _ hne] at hat
    exact Store.mem_live_of_resolve? hat
  refine ⟨?_, ?_, ?_⟩
  · intro name m hm
    obtain ⟨hlive, hname⟩ := hp.machine?_eq_some_iff.mp hm
    exact hq.machine?_eq_some_iff.mpr ⟨hkept m hlive, hname⟩
  · intro m hm state hstate name hcalls hnone
    rw [Option.eq_none_iff_forall_ne_some]
    intro x hx
    obtain ⟨hlive, hname⟩ := hq.machine?_eq_some_iff.mp hx
    obtain ⟨slot, hslot⟩ := Store.mem_live.mp hlive
    have hat : q.machineAt? (q.machines.handleAt slot) = some x :=
      (q.machines.resolve?_handleAt slot).trans hslot
    by_cases heq : q.machines.handleAt slot = h
    · exact huncalled x (heq ▸ hat) m hm state hstate (hname ▸ hcalls)
    · rw [hsame _ heq] at hat
      have hfound := hp.machine?_eq_some_iff.mpr ⟨Store.mem_live_of_resolve? hat, hname⟩
      rw [hnone] at hfound
      cases hfound
  · rw [hp.machineCount_eq]
    refine hq.length_le_machineCount hp.indexed.nodup_names fun name hname => ?_
    obtain ⟨m, hm, rfl⟩ := List.mem_map.mp hname
    exact List.mem_map_of_mem (hkept m hm)

namespace ExtendsTo

/-! ## Calls -/

theorem callee?_eq (hpq : p.ExtendsTo q) (hp : p.WellFormed) {frame : Frame}
    (hvalid : frame.Valid p) : frame.callee? q = frame.callee? p := by
  cases hcalls : frame.state.submachine with
  | none => rw [Frame.callee?_of_none hcalls, Frame.callee?_of_none hcalls]
  | some name =>
    cases hm : p.machine? name with
    | none =>
      have hlive := (hp.machine?_eq_some_iff.mp hvalid.machine?_eq).1
      have hunknown := hpq.unknown _ hlive _ hvalid.mem_live name hcalls hm
      rw [Frame.callee?_of_unknown hcalls hm, Frame.callee?_of_unknown hcalls hunknown]
    | some m =>
      rw [Frame.callee?_of_known hcalls hm, Frame.callee?_of_known hcalls (hpq.machine? hm)]

/-- The limit of either project is high enough for every chain of calls that ends. -/
theorem enter_cases (hpq : p.ExtendsTo q) (hp : p.WellFormed) {c : CallStack}
    (hc : c.current.Valid p) :
    c.enter q q.machineCount = c.enter p p.machineCount ∨
    ∃ a b stack stack',
      c.enter p p.machineCount =
        (.error (.infiniteSubmachineLoop a (p.machineCount + 1)), stack) ∧
      c.enter q q.machineCount =
        (.error (.infiniteSubmachineLoop b (q.machineCount + 1)), stack') := by
  have hcallee : ∀ {frame : Frame}, frame.Valid p → frame.callee? q = frame.callee? p :=
    hpq.callee?_eq hp
  have hpush : ∀ {frame callee : Frame} {name : String}, frame.Valid p →
      frame.callee? p = .ok (some (name, callee)) → callee.Valid p := by
    intro frame callee name _ hcalls
    obtain ⟨-, m, hm, hstart⟩ := Frame.callee?_eq_some_iff.mp hcalls
    exact (Frame.valid_of_start hp hm hstart).1
  by_cases hends : ∃ k, c.current.CallsEnd p k
  · obtain ⟨k, hk⟩ := hends
    have hlimit := hk.le_machineCount hp
    exact .inl (CallStack.enter_of_callsEnd hcallee hpush hk rfl hc hlimit
      (hlimit.trans hpq.machineCount))
  · rw [not_exists] at hends
    obtain ⟨a, stack, ha⟩ := CallStack.enter_of_endless hends p.machineCount
    obtain ⟨b, stack', hb⟩ := CallStack.enter_of_endless (p := q) (c := c)
      (fun k hk => hends k (hk.of_callee?_eq hcallee hpush hc)) q.machineCount
    exact .inr ⟨a, b, stack, stack', ha, hb⟩

end ExtendsTo

end Project

/-! ## Simulations of both projects -/

/-- The same error, or two errors about calls that never end. -/
inductive SimulationError.SameKind : SimulationError → SimulationError → Prop
  | same (e : SimulationError) : SameKind e e
  | loop (a b : String) (m n : Nat) :
      SameKind (.infiniteSubmachineLoop a m) (.infiniteSubmachineLoop b n)

/-- What is left by a computation in one project and by the same computation in `q`: the same result
and the same simulation but for the project, or both failed at calls that never end and differ in
what was entered before that. -/
inductive Simulation.Beside (q : Project) {α : Type} :
    Except SimulationError α × Simulation → Except SimulationError α × Simulation → Prop
  | same (result : Except SimulationError α) (s : Simulation) :
      Beside q (result, s) (result, { s with project := q })
  | loop (s : Simulation) (stack : CallStack) (a b : String) (m n : Nat) :
      Beside q (.error (.infiniteSubmachineLoop a m), s)
        (.error (.infiniteSubmachineLoop b n), { s with project := q, stack })

namespace Project.ExtendsTo

variable {p q : Project} {s : Simulation} {name : String}

theorem settle (hpq : p.ExtendsTo q) (hp : p.WellFormed) (hs : s.Linked p name) :
    Simulation.Beside q s.settle (Simulation.settle { s with project := q }) := by
  have hproject := hs.project_eq
  unfold Simulation.settle Simulation.enterSubmachines
  rw [hproject]
  obtain hsame | ⟨a, b, stack, stack', ha, hb⟩ := hpq.enter_cases hp hs.stack.valid_current
  · rw [hsame]
    rcases s.stack.enter p p.machineCount with ⟨_ | _, stack⟩
    · exact .same _ _
    · exact .same _ _
  · rw [ha, hb]
    exact .loop _ _ _ _ _ _

theorem step (hpq : p.ExtendsTo q) (hp : p.WellFormed) (hs : s.Linked p name) :
    Simulation.Beside q s.step (Simulation.step { s with project := q }) := by
  by_cases hrunning : s.status = .running
  · rw [Simulation.step_of_running hrunning,
      Simulation.step_of_running (s := { s with project := q }) hrunning]
    simp only [Simulation.current]
    cases s.stack.current.state.transitionFor? s.head.read with
    | none => exact .same _ _
    | some transition =>
      dsimp only
      cases hdestination : s.stack.current.machine.stateAt? transition.destination with
      | none => exact .same _ _
      | some destination =>
        dsimp only
        have hsettle := hpq.settle hp (hs.take hdestination)
        have htake : Simulation.take { s with project := q } transition destination =
            { s.take transition destination with project := q } := rfl
        rw [htake]
        generalize (s.take transition destination).settle = left,
          Simulation.settle { s.take transition destination with project := q } = right
          at hsettle ⊢
        cases hsettle with
        | same result t =>
          cases result with
          | error e => exact .same _ _
          | ok _ => exact .same _ _
        | loop t stack a b m n => exact .loop _ _ _ _ _ _
  · have hterminal := Status.isTerminal_eq_true_iff.mpr hrunning
    rw [Simulation.step_of_isTerminal hterminal,
      Simulation.step_of_isTerminal (s := { s with project := q }) hterminal]
    exact .same _ _

theorem runFor (hpq : p.ExtendsTo q) (hp : p.WellFormed) (hs : s.Linked p name) (n : Nat) :
    Simulation.Beside q (s.runFor n) (Simulation.runFor { s with project := q } n) := by
  induction n generalizing s with
  | zero => exact .same _ _
  | succ n ih =>
    have hlinked := hs.step hp
    have hstep := hpq.step hp hs
    unfold Simulation.runFor
    generalize s.step = left, Simulation.step { s with project := q } = right at hlinked hstep ⊢
    cases hstep with
    | same result t =>
      cases result with
      | error e => exact .same _ _
      | ok outcome =>
        cases outcome with
        | proceeds => exact ih hlinked
        | halts status => exact .same _ _
    | loop t stack a b m n => exact .loop _ _ _ _ _ _

theorem start (hpq : p.ExtendsTo q) (hp : p.WellFormed) {m : Machine} (hm : m ∈ p.machines.live)
    (tape : Tape) : Agree SimulationError.SameKind (fun s t => t = { s with project := q })
      (Simulation.start p m.name tape) (Simulation.start q m.name tape) := by
  have hfound : p.machine? m.name = some m := hp.machine?_eq_some_iff.mpr ⟨hm, rfl⟩
  have hfound' : q.machine? m.name = some m := hpq.machine? hfound
  cases hframe : Frame.start m with
  | error e =>
    simp only [Simulation.start, hfound, hfound', hframe]
    exact .error (.same e)
  | ok frame =>
    obtain ⟨hvalid, hname⟩ := Frame.valid_of_start hp hfound hframe
    have hlinked : (Simulation.unsettled p tape frame).Linked p m.name :=
      ⟨rfl, .outermost hvalid hname⟩
    have hsettle := hpq.settle hp hlinked
    rw [Simulation.start_of_frame hfound hframe, Simulation.start_of_frame hfound' hframe]
    have hunsettled : Simulation.unsettled q tape frame =
        { Simulation.unsettled p tape frame with project := q } := rfl
    rw [hunsettled]
    generalize (Simulation.unsettled p tape frame).settle = left,
      Simulation.settle { Simulation.unsettled p tape frame with project := q } = right
      at hsettle ⊢
    cases hsettle with
    | same result s =>
      cases result with
      | error e => exact .error (.same e)
      | ok _ => exact .ok rfl
    | loop s stack a b m n => exact .error (.loop a b m n)

end Project.ExtendsTo

/-- A machine `x` is added under a new name and changed in any way, its name included, and nothing
else is changed. If no state calls `x`, then every other machine runs as without it: it starts alike,
and after any number of steps status, frames, head, tape and count are the same, or the errors are. Only
calls that never end may be reported at another machine and depth. -/
theorem Project.Built.uncalled_machine_changes_no_run {p added : Project} {next : Identity}
    (hp : p.Built next) {name : String} {h : Handle}
    (hadd : p.addMachine next name = .ok (h, added)) {edits : List Edit}
    (hedits : Edit.allStayAt h edits (added, next + 1) = true) :
    let q := (edits.foldl (fun built edit => edit.apply built) (added, next + 1)).1
    (∀ x, q.machineAt? h = some x → ∀ m ∈ p.machines.live, ∀ state ∈ m.states.live,
      state.submachine ≠ some x.name) →
    ∀ m ∈ p.machines.live, ∀ tape, Agree SimulationError.SameKind
      (fun s t => t = { s with project := q } ∧ ∀ n, Simulation.Beside q (s.runFor n) (t.runFor n))
      (Simulation.start p m.name tape) (Simulation.start q m.name tape) := by
  intro q huncalled m hm tape
  have hwf := hp.wellFormed
  have hadded : added.Built (next + 1) := by
    have hedited := hp.edited (.addMachine name)
    simpa only [Edit.apply, hadd] using hedited
  have hq : q.WellFormed := (hadded.foldl_edit edits).wellFormed
  obtain ⟨⟨h', machines⟩, hmachines, hok⟩ := bind_eq_ok_iff.mp hadd
  cases hok
  have hresolve := Store.resolve?_of_add hmachines
  have hnew : p.machineAt? h = none := by
    obtain ⟨-, rfl, -⟩ := Store.add_eq_ok_iff.mp hmachines
    exact p.machines.resolve?_next
  have hsame : ∀ handle, handle ≠ h → q.machineAt? handle = p.machineAt? handle := by
    intro handle hne
    have hedited := Edit.machineAt?_foldl hadded.wellFormed hedits hne
    have hbefore := hresolve handle
    rw [if_neg hne] at hbefore
    exact hedited.trans hbefore
  have hextends := hwf.extendsTo hq hnew hsame huncalled
  refine (hextends.start hwf hm tape).imp_of_ok fun s t hstart _ heq => ⟨heq, fun n => ?_⟩
  rw [heq]
  exact hextends.runFor hwf (Simulation.linked_of_start hwf hstart) n

/-- The machine `main` reads a one and calls `left`, which calls `right`, which calls `left`. -/
def Project.stuckSample : Project × Identity :=
  [Edit.addMachine "main",
    .editMachine "main" (.addState "start"),
    .editMachine "main" (.addState "call"),
    .editMachine "main" (.editState "call" (.setSubmachine (some "left"))),
    .editMachine "main" (.addTransition "start" "call" "1" none .right)].foldl
    (fun built edit => edit.apply built) Project.brokenSample

theorem Project.built_stuckSample : Project.stuckSample.1.Built Project.stuckSample.2 :=
  Project.built_brokenSample.foldl_edit _

/-- Changes of the machine `extra`: it comes to call itself, under another name. -/
def Project.spareEdits : List Project.Edit :=
  [.editMachineAt ⟨0, 4⟩ (.addState "start"), .renameMachine "extra" "spare",
    .editMachine "spare" (.editState "start" (.setSubmachine (some "spare")))]

/-- The sample with this machine. -/
def Project.stuckSampleExtended : Project × Identity :=
  (Edit.addMachine "extra" :: spareEdits).foldl (fun built edit => edit.apply built) stuckSample

/-- The run of `main` is stuck in either project, but calls are followed further in one of them. -/
theorem Project.stuckSample_beside_extended : ∃ s t,
    Simulation.start stuckSample.1 "main" (.ofText "1" '_') = .ok s ∧
    Simulation.start stuckSampleExtended.1 "main" (.ofText "1" '_') = .ok t ∧
    (∀ n, Simulation.Beside stuckSampleExtended.1 (s.runFor n) (t.runFor n)) ∧
    (s.runFor 2).1 = .error (.infiniteSubmachineLoop "left" 5) ∧
    (t.runFor 2).1 = .error (.infiniteSubmachineLoop "right" 6) := by
  obtain ⟨added, hadd⟩ : ∃ added, stuckSample.1.addMachine stuckSample.2 "extra" =
    .ok (⟨0, 4⟩, added) := ⟨_, rfl⟩
  have happly : (Edit.addMachine "extra").apply stuckSample = (added, stuckSample.2 + 1) := by
    show (Edit.addMachine "extra").apply (stuckSample.1, stuckSample.2) = _
    simp only [Edit.apply, hadd]
  have hstay : Edit.allStayAt ⟨0, 4⟩ spareEdits ((Edit.addMachine "extra").apply stuckSample) =
      true := by decide +kernel
  have hspare : (stuckSampleExtended.1.machineAt? ⟨0, 4⟩).map Machine.name = some "spare" := by
    decide +kernel
  have huncalled : ∀ m ∈ stuckSample.1.machines.live, ∀ state ∈ m.states.live,
      state.submachine ≠ some "spare" := by decide +kernel
  obtain ⟨m, hm, hname⟩ : ∃ m ∈ stuckSample.1.machines.live, m.name = "main" := by decide +kernel
  rw [happly] at hstay
  have hextended : (spareEdits.foldl (fun built edit => edit.apply built)
      (added, stuckSample.2 + 1)).1 = stuckSampleExtended.1 := by
    rw [stuckSampleExtended, List.foldl_cons, happly]
  have hagree := built_stuckSample.uncalled_machine_changes_no_run hadd hstay
  rw [hextended] at hagree
  have hmain := hagree (fun x hx => by
    rw [hx] at hspare
    rw [Option.some.inj hspare]
    exact huncalled) m hm (.ofText "1" '_')
  let s := ((Simulation.start stuckSample.1 "main" (.ofText "1" '_')).toOption).get rfl
  let t := ((Simulation.start stuckSampleExtended.1 "main" (.ofText "1" '_')).toOption).get rfl
  have hs : Simulation.start stuckSample.1 "main" (.ofText "1" '_') = .ok s := rfl
  have ht : Simulation.start stuckSampleExtended.1 "main" (.ofText "1" '_') = .ok t := rfl
  have hserror : (s.runFor 2).1 = .error (.infiniteSubmachineLoop "left" 5) := by decide +kernel
  have hterror : (t.runFor 2).1 = .error (.infiniteSubmachineLoop "right" 6) := by decide +kernel
  rw [hname, hs, ht] at hmain
  cases hmain with
  | ok hok => exact ⟨s, t, hs, ht, hok.2, hserror, hterror⟩

end HierarchicalTuring
