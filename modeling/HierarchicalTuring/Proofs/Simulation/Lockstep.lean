import HierarchicalTuring.Proofs.Result
import HierarchicalTuring.Proofs.Simulation.Frames

/-! # Simulations in lockstep

Two projects are simulated side by side, frames related by `R` and errors by `E`.

* `Lockstep p q R E` is what has to be known of two related frames: they accept alike, their
  transitions act alike and lead to related frames, and entering goes on alike.
  `enter_agree` gives the last part when calls lead to related frames and the projects have equally
  many machines, and `callee_agree` says when they do.
* `Simulation.Matches` relates simulations frame by frame. Starts lead to matching simulations
  (`Lockstep.start_agree`), and steps and bounded runs keep them so, with results that agree
  (`Lockstep.step`, `Lockstep.runFor`).
* `Simulation.shown` is what can be seen of a simulation. Where it is seen of related frames in the
  same way, it is seen of matching simulations in the same way (`Matches.shown_eq`).
-/

set_option autoImplicit false

namespace HierarchicalTuring

variable {p q : Project} {R : Frame → Frame → Prop} {E : SimulationError → SimulationError → Prop}

/-- The frames are related one by one. -/
structure CallStack.Matches (R : Frame → Frame → Prop) (c d : CallStack) : Prop where
  current : R c.current d.current
  callers : List.Forall₂ R c.callers d.callers

/-- The frames are related one by one, and everything else is the same. -/
structure Simulation.Matches (p q : Project) (R : Frame → Frame → Prop) (s t : Simulation) :
    Prop where
  left : s.project = p
  right : t.project = q
  head : s.head = t.head
  stack : s.stack.Matches R t.stack
  status : s.status = t.status
  stepCount : s.stepCount = t.stepCount

/-- What is known of related frames of two projects. -/
structure Lockstep (p q : Project) (R : Frame → Frame → Prop)
    (E : SimulationError → SimulationError → Prop) : Prop where
  accepting : ∀ {f g : Frame}, R f g → f.state.accepting = g.state.accepting
  transition : ∀ {f g : Frame}, R f g → ∀ c,
    (f.state.transitionFor? c = none ∧ g.state.transitionFor? c = none) ∨
    ∃ t u, f.state.transitionFor? c = some t ∧ g.state.transitionFor? c = some u ∧
      t.output = u.output ∧ t.direction = u.direction ∧
      ((f.machine.stateAt? t.destination = none ∧ g.machine.stateAt? u.destination = none ∧
        E (.danglingDestination f.state.name f.machine.name)
          (.danglingDestination g.state.name g.machine.name)) ∨
      ∃ a b, f.machine.stateAt? t.destination = some a ∧
        g.machine.stateAt? u.destination = some b ∧
        R { f with handle := t.destination, state := a }
          { g with handle := u.destination, state := b })
  enter : ∀ {c d : CallStack}, c.Matches R d →
    Agree E Eq (c.enter p p.machineCount).1 (d.enter q q.machineCount).1 ∧
      (c.enter p p.machineCount).2.Matches R (d.enter q q.machineCount).2

namespace CallStack

/-! ## Stacks -/

theorem Matches.unwindFrom (hR : ∀ {f g : Frame}, R f g → f.state.accepting = g.state.accepting)
    {f g : Frame} (h : R f g) {callers callers' : List Frame}
    (hcallers : List.Forall₂ R callers callers') :
    (unwindFrom f callers).Matches R (unwindFrom g callers') := by
  induction hcallers generalizing f g with
  | nil => exact ⟨h, .nil⟩
  | @cons caller caller' rest rest' hcaller hrest ih =>
    by_cases hf : f.state.accepting = true
    · rw [unwindFrom_cons_of_accepting hf, unwindFrom_cons_of_accepting (hR h ▸ hf)]
      exact ih hcaller
    · rw [Bool.not_eq_true] at hf
      rw [unwindFrom_of_not_accepting hf, unwindFrom_of_not_accepting (hR h ▸ hf)]
      exact ⟨h, .cons hcaller hrest⟩

theorem Matches.frames {c d : CallStack} (h : c.Matches R d) :
    List.Forall₂ R c.frames d.frames := by
  unfold CallStack.frames
  exact List.rel_append (List.forall₂_reverse_iff.mpr h.callers) (.cons h.current .nil)

/-- Frames with the same call call alike if the called machines are both unknown or are entered
alike. -/
theorem callee_agree {f g : Frame} (hcall : f.state.submachine = g.state.submachine)
    (hentered : ∀ name, f.state.submachine = some name →
      Option.Rel (fun m m' => Agree E R (Frame.start m) (Frame.start m'))
        (p.machine? name) (q.machine? name) ∧
      E (.submachineNotFound name f.state.name f.machine.name)
        (.submachineNotFound name g.state.name g.machine.name) ∧
      ∀ depth, E (.infiniteSubmachineLoop name depth) (.infiniteSubmachineLoop name depth)) :
    Agree E (Option.Rel fun x y => R x.2 y.2 ∧ ∀ depth,
      E (.infiniteSubmachineLoop x.1 depth) (.infiniteSubmachineLoop y.1 depth))
      (f.callee? p) (g.callee? q) := by
  cases hf : f.state.submachine with
  | none =>
    rw [Frame.callee?_of_none hf, Frame.callee?_of_none (hcall ▸ hf)]
    exact .ok .none
  | some name =>
    obtain ⟨hmachines, hunknown, hloop⟩ := hentered name hf
    have hg : g.state.submachine = some name := hcall ▸ hf
    generalize hm : p.machine? name = left, hm' : q.machine? name = right at hmachines
    cases hmachines with
    | none =>
      rw [Frame.callee?_of_unknown hf hm, Frame.callee?_of_unknown hg hm']
      exact .error hunknown
    | @some m m' hagree =>
      rw [Frame.callee?_of_known hf hm, Frame.callee?_of_known hg hm']
      generalize Frame.start m = callee, Frame.start m' = callee' at hagree ⊢
      cases hagree with
      | error he => exact .error he
      | ok hR => exact .ok (.some ⟨hR, hloop⟩)

/-- Calls are followed alike if related frames call related frames. -/
theorem enter_agree (hcount : p.machineCount = q.machineCount)
    (hcallee : ∀ {f g : Frame}, R f g → Agree E
      (Option.Rel fun x y => R x.2 y.2 ∧ ∀ depth,
        E (.infiniteSubmachineLoop x.1 depth) (.infiniteSubmachineLoop y.1 depth))
      (f.callee? p) (g.callee? q))
    {c d : CallStack} (h : c.Matches R d) (remaining : Nat) :
    Agree E Eq (c.enter p remaining).1 (d.enter q remaining).1 ∧
      (c.enter p remaining).2.Matches R (d.enter q remaining).2 := by
  induction remaining generalizing c d with
  | zero =>
    have hagree := hcallee h.current
    unfold enter
    rw [← hcount]
    generalize c.current.callee? p = called, d.current.callee? q = called' at hagree ⊢
    cases hagree with
    | error he => exact ⟨.error he, h⟩
    | ok hcalled =>
      cases hcalled with
      | none => exact ⟨.ok rfl, h⟩
      | some hboth => exact ⟨.error (hboth.2 _), h⟩
  | succ remaining ih =>
    have hagree := hcallee h.current
    unfold enter
    generalize c.current.callee? p = called, d.current.callee? q = called' at hagree ⊢
    cases hagree with
    | error he => exact ⟨.error he, h⟩
    | ok hcalled =>
      cases hcalled with
      | none => exact ⟨.ok rfl, h⟩
      | some hboth => exact ih ⟨hboth.1, .cons h.current h.callers⟩

end CallStack

namespace Lockstep

variable {s t : Simulation}

/-! ## Steps -/

theorem settle (h : Lockstep p q R E) (hst : s.Matches p q R t) :
    Agree E Eq s.settle.1 t.settle.1 ∧ s.settle.2.Matches p q R t.settle.2 := by
  obtain ⟨hagree, hstack⟩ := h.enter hst.stack
  rw [← hst.left, ← hst.right] at hagree hstack
  rcases hs : s.stack.enter s.project s.project.machineCount with ⟨x, c⟩
  rcases ht : t.stack.enter t.project t.project.machineCount with ⟨y, d⟩
  rw [hs, ht] at hagree hstack
  change Agree E Eq x y at hagree
  cases hagree with
  | error he =>
    rw [Simulation.settle_eq_error_iff.mpr ⟨c, hs, rfl⟩,
      Simulation.settle_eq_error_iff.mpr ⟨d, ht, rfl⟩]
    exact ⟨.error he, ⟨hst.left, hst.right, hst.head, hstack, hst.status, hst.stepCount⟩⟩
  | ok _ =>
    rw [Simulation.settle_eq_ok_iff.mpr ⟨c, hs, rfl⟩, Simulation.settle_eq_ok_iff.mpr ⟨d, ht, rfl⟩]
    have hunwind : c.unwind.Matches R d.unwind :=
      CallStack.Matches.unwindFrom h.accepting hstack.current hstack.callers
    refine ⟨.ok rfl, ⟨hst.left, hst.right, hst.head, hunwind, ?_, hst.stepCount⟩⟩
    rw [Simulation.status_returned, Simulation.status_returned, h.accepting hunwind.current,
      hst.status]

theorem act_congr (head : Head) {t u : Transition} (houtput : t.output = u.output)
    (hdirection : t.direction = u.direction) : Simulation.act head t = Simulation.act head u := by
  unfold Simulation.act
  rw [houtput, hdirection]

theorem step (h : Lockstep p q R E) (hst : s.Matches p q R t) :
    Agree E Eq s.step.1 t.step.1 ∧ s.step.2.Matches p q R t.step.2 := by
  by_cases hs : s.status = .running
  · have ht : t.status = .running := hst.status ▸ hs
    have hread : s.head.read = t.head.read := congrArg Head.read hst.head
    rw [Simulation.step_of_running hs, Simulation.step_of_running ht, ← hread]
    rcases h.transition hst.stack.current s.head.read with ⟨hnone, hnone'⟩ |
      ⟨a, b, ha, hb, houtput, hdirection, ⟨hnone, hnone', herror⟩ | ⟨x, y, hx, hy, hxy⟩⟩
    · simp only [Simulation.current, hnone, hnone']
      exact ⟨.ok rfl, ⟨hst.left, hst.right, hst.head, hst.stack, rfl, hst.stepCount⟩⟩
    · simp only [Simulation.current, ha, hb, hnone, hnone']
      exact ⟨.error herror, hst⟩
    · simp only [Simulation.current, ha, hb, hx, hy]
      have htake : (s.take a x).Matches p q R (t.take b y) := by
        refine ⟨hst.left, hst.right, ?_, ⟨hxy, hst.stack.callers⟩, hst.status, ?_⟩
        · show Simulation.act s.head a = Simulation.act t.head b
          rw [hst.head, act_congr t.head houtput hdirection]
        · show s.stepCount + 1 = t.stepCount + 1
          rw [hst.stepCount]
      obtain ⟨hagree, hmatches⟩ := h.settle htake
      generalize (s.take a x).settle = left, (t.take b y).settle = right at hagree hmatches ⊢
      obtain ⟨i, s'⟩ := left
      obtain ⟨j, t'⟩ := right
      change Agree E Eq i j at hagree
      cases hagree with
      | error he => exact ⟨.error he, hmatches⟩
      | ok _ => exact ⟨.ok (congrArg Outcome.ofStatus hmatches.status), hmatches⟩
  · have ht : t.status ≠ .running := hst.status ▸ hs
    rw [Simulation.step_of_isTerminal (Status.isTerminal_eq_true_iff.mpr hs),
      Simulation.step_of_isTerminal (Status.isTerminal_eq_true_iff.mpr ht)]
    exact ⟨.ok (congrArg Outcome.halts hst.status), hst⟩

theorem runFor (h : Lockstep p q R E) (hst : s.Matches p q R t) (n : Nat) :
    Agree E Eq (s.runFor n).1 (t.runFor n).1 ∧ (s.runFor n).2.Matches p q R (t.runFor n).2 := by
  induction n generalizing s t with
  | zero => exact ⟨.ok hst.status, hst⟩
  | succ n ih =>
    obtain ⟨hagree, hmatches⟩ := h.step hst
    unfold Simulation.runFor
    generalize s.step = left, t.step = right at hagree hmatches ⊢
    obtain ⟨i, s'⟩ := left
    obtain ⟨j, t'⟩ := right
    change Agree E Eq i j at hagree
    cases hagree with
    | error he => exact ⟨.error he, hmatches⟩
    | @ok outcome _ heq =>
      subst heq
      cases outcome with
      | proceeds => exact ih hmatches
      | halts status => exact ⟨.ok rfl, hmatches⟩

/-- Steps go on alike also after one that failed. -/
theorem steps (h : Lockstep p q R E) (hst : s.Matches p q R t) (n : Nat) :
    Simulation.Matches p q R ((fun u => u.step.2)^[n] s) ((fun u => u.step.2)^[n] t) := by
  induction n generalizing s t with
  | zero => exact hst
  | succ n ih => exact ih (h.step hst).2

/-! ## Starts -/

theorem start_of_frames (h : Lockstep p q R E) {name name' : String} {m m' : Machine} {f g : Frame}
    (hm : p.machine? name = some m) (hm' : q.machine? name' = some m')
    (hf : Frame.start m = .ok f) (hg : Frame.start m' = .ok g) (hR : R f g) (tape : Tape) :
    Agree E (Simulation.Matches p q R) (Simulation.start p name tape)
      (Simulation.start q name' tape) := by
  have hst : (Simulation.unsettled p tape f).Matches p q R (Simulation.unsettled q tape g) :=
    ⟨rfl, rfl, rfl, ⟨hR, .nil⟩, rfl, rfl⟩
  obtain ⟨hagree, hmatches⟩ := h.settle hst
  rw [Simulation.start_of_frame hm hf, Simulation.start_of_frame hm' hg]
  generalize (Simulation.unsettled p tape f).settle = left,
    (Simulation.unsettled q tape g).settle = right at hagree hmatches ⊢
  obtain ⟨i, s⟩ := left
  obtain ⟨j, t⟩ := right
  change Agree E Eq i j at hagree
  cases hagree with
  | error he => exact .error he
  | ok _ => exact .ok hmatches

/-- Simulations of two machines start alike if both machines are unknown or are entered alike. -/
theorem start_agree (h : Lockstep p q R E) {name name' : String}
    (hmachines : Option.Rel (fun m m' => Agree E R (Frame.start m) (Frame.start m'))
      (p.machine? name) (q.machine? name'))
    (hunknown : E (.machineNotFound name) (.machineNotFound name')) (tape : Tape) :
    Agree E (Simulation.Matches p q R) (Simulation.start p name tape)
      (Simulation.start q name' tape) := by
  generalize hm : p.machine? name = left, hm' : q.machine? name' = right at hmachines
  cases hmachines with
  | none =>
    simp only [Simulation.start, hm, hm']
    exact .error hunknown
  | @some m m' hagree =>
    generalize hf : Frame.start m = entered, hg : Frame.start m' = entered' at hagree
    cases hagree with
    | error he =>
      simp only [Simulation.start, hm, hm', hf, hg]
      exact .error he
    | ok hR => exact h.start_of_frames hm hm' hf hg hR tape

end Lockstep

/-! ## What can be seen -/

/-- The name of the machine, and the state it is in with its handle. -/
def Frame.shown (frame : Frame) : String × Handle × State :=
  (frame.machine.name, frame.handle, frame.state)

/-- The frames, the outermost first, the head with its tape, the number of steps and the status. -/
def Simulation.shown (s : Simulation) : List (String × Handle × State) × Head × Nat × Status :=
  (s.frames.map Frame.shown, s.head, s.stepCount, s.status)

theorem Simulation.Matches.exists_related {s t : Simulation} (h : s.Matches p q R t) {f : Frame}
    (hf : f ∈ s.frames) : ∃ g ∈ t.frames, R f g := by
  have hrelated : List.Forall₂ R s.frames t.frames := h.stack.frames
  generalize s.frames = left, t.frames = right at hf hrelated ⊢
  induction hrelated with
  | nil => cases hf
  | cons hfg _ ih =>
    rcases List.mem_cons.mp hf with rfl | hf
    · exact ⟨_, List.mem_cons_self, hfg⟩
    · obtain ⟨g, hg, hR⟩ := ih hf
      exact ⟨g, List.mem_cons_of_mem _ hg, hR⟩

theorem Simulation.Matches.shown_eq {s t : Simulation} (h : s.Matches p q R t)
    (view : Frame → String × Handle × State) (hview : ∀ f g, R f g → g.shown = view f) :
    t.shown = (s.frames.map view, s.head, s.stepCount, s.status) := by
  have hframes : t.frames.map Frame.shown = s.frames.map view := by
    have hrelated : List.Forall₂ R s.frames t.frames := h.stack.frames
    generalize s.frames = left, t.frames = right at hrelated ⊢
    induction hrelated with
    | nil => rfl
    | cons hfg _ ih => rw [List.map_cons, List.map_cons, ih, hview _ _ hfg]
  rw [shown, hframes, h.head, h.stepCount, h.status]

end HierarchicalTuring
