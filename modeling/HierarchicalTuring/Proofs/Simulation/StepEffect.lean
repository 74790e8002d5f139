import HierarchicalTuring.Proofs.Simulation.Dangling
import HierarchicalTuring.Proofs.Simulation.Entering
import HierarchicalTuring.Proofs.Simulation.Resuming

/-! # What one step does

* `CallStack.exists_callChain_of_enter`: entering pushes the frames of a chain of calls, also where it
  fails in the end, and `CallStack.exists_frames_unwindFrom`: returning takes accepting frames off.
* `Simulation.Acts s t u` is what a transition does to head and count, and `Simulation.Settles` what
  becomes of the frames after it, with each result.
* `Simulation.Does s kind`: a step that finds the simulation halted, that finds no transition, that
  finds one that leads nowhere, or that takes one. `Simulation.stepKind` decides between the four.
* `Simulation.step_does_exactly_one` puts this together.
-/

set_option autoImplicit false

namespace HierarchicalTuring

namespace Frame

theorem submachine_of_callee?_none {p : Project} {frame : Frame}
    (h : frame.callee? p = .ok none) : frame.state.submachine = none := by
  cases hsub : frame.state.submachine with
  | none => rfl
  | some name =>
    cases hm : p.machine? name with
    | none =>
      rw [callee?_of_unknown hsub hm] at h
      cases h
    | some m =>
      rw [callee?_of_known hsub hm] at h
      rcases hstart : start m with e | callee
      · rw [hstart] at h
        cases h
      · rw [hstart] at h
        cases h

end Frame

namespace CallStack

/-- What was entered are the frames of a chain of calls. Where all went well, the chain has come to a
state that calls nothing. -/
theorem exists_callChain_of_enter (p : Project) (c : CallStack) (remaining : Nat) :
    ∃ links, c.current.CallChain p links ∧
      (c.enter p remaining).2 = c.pushAll (links.map Prod.snd) ∧
      ((c.enter p remaining).1 = .ok () → (c.current.chainEnd links).state.submachine = none) := by
  induction remaining generalizing c with
  | zero =>
    refine ⟨[], .nil c.current, ?_⟩
    unfold enter
    rcases hcallee : c.current.callee? p with e | _ | ⟨name, callee⟩
    · exact ⟨rfl, fun h => by cases h⟩
    · exact ⟨rfl, fun _ => Frame.submachine_of_callee?_none hcallee⟩
    · exact ⟨rfl, fun h => by cases h⟩
  | succ remaining ih =>
    unfold enter
    rcases hcallee : c.current.callee? p with e | _ | ⟨name, callee⟩
    · exact ⟨[], .nil c.current, rfl, fun h => by cases h⟩
    · exact ⟨[], .nil c.current, rfl, fun _ => Frame.submachine_of_callee?_none hcallee⟩
    · obtain ⟨links, hlinks, hpushed, hend⟩ := ih (c.push callee)
      exact ⟨(name, callee) :: links, .cons (Frame.enters_iff.mpr hcallee) hlinks, hpushed, hend⟩

/-- Returning takes frames off whose states accept. -/
theorem exists_frames_unwindFrom (current : Frame) (callers : List Frame) :
    ∃ returned, (⟨current, callers⟩ : CallStack).frames =
        (unwindFrom current callers).frames ++ returned ∧
      ∀ frame ∈ returned, frame.state.accepting = true := by
  induction callers generalizing current with
  | nil => exact ⟨[], (List.append_nil _).symm, nofun⟩
  | cons caller rest ih =>
    by_cases hcurrent : current.state.accepting = true
    · obtain ⟨returned, hframes, hall⟩ := ih caller
      refine ⟨returned ++ [current], ?_, ?_⟩
      · rw [unwindFrom_cons_of_accepting hcurrent, ← List.append_assoc, ← hframes]
        simp [frames]
      · intro frame hframe
        rcases List.mem_append.mp hframe with hreturned | hlast
        · exact hall frame hreturned
        · rw [List.mem_singleton.mp hlast]
          exact hcurrent
    · rw [Bool.not_eq_true] at hcurrent
      rw [unwindFrom_of_not_accepting hcurrent]
      exact ⟨[], (List.append_nil _).symm, nofun⟩

end CallStack

namespace Simulation

variable {s u : Simulation} {t : Transition} {destination : State}

/-! ## Taking a transition -/

/-- The frame on top in the state that a transition leads to. -/
def moved (s : Simulation) (t : Transition) (destination : State) : Frame :=
  { s.current with handle := t.destination, state := destination }

/-- The step counts, the old position of the head holds what the transition writes, and the head moves
one cell at most and never below 0. It would stop at the largest position, too, but not before the
count of steps has. -/
structure Acts (s : Simulation) (t : Transition) (u : Simulation) : Prop where
  project : u.project = s.project
  stepCount : u.stepCount = s.stepCount + 1
  empty : u.head.tape.empty = s.head.tape.empty
  read : ∀ i, u.head.tape.read i =
    if i = s.head.position then t.output.getD s.head.read else s.head.tape.read i
  position : u.head.position = min (s.head.position + t.direction.delta).toNat maxPosition
  position_of_le : u.stepCount ≤ maxPosition →
    u.head.position = (s.head.position + t.direction.delta).toNat

/-- After a transition the frames are the old callers, the frame that has moved, and those of the
chain of calls from there. If all calls went well, the accepting ones on top were left for the frame
below, and the status says whether an accepting one is left. If a call failed, what was entered before
it is there. -/
def Settles (s : Simulation) (frame : Frame) (u : Simulation) :
    Except SimulationError Outcome → Prop
  | .ok outcome => ∃ links returned, frame.CallChain s.project links ∧
      (frame.chainEnd links).state.submachine = none ∧
      s.stack.callers.reverse ++ frame :: links.map Prod.snd = u.frames ++ returned ∧
      (∀ left ∈ returned, left.state.accepting = true) ∧
      (u.current.state.accepting = true → u.stack.callers = []) ∧
      u.status = (if u.current.state.accepting then .accepted else .running) ∧
      outcome = .ofStatus u.status
  | .error e => ∃ links, frame.CallChain s.project links ∧
      u.frames = s.stack.callers.reverse ++ frame :: links.map Prod.snd ∧
      u.status = .running ∧ ∀ state machine, e ≠ .danglingDestination state machine

theorem read_act (h : Head) (t : Transition) (i : Nat) :
    (act h t).tape.read i = if i = h.position then t.output.getD h.read else h.tape.read i := by
  unfold act
  cases t.output with
  | none =>
    by_cases hi : i = h.position
    · rw [if_pos hi, hi]
      rfl
    · rw [if_neg hi]
      rfl
  | some c => exact h.tape.read_write h.position c i

theorem empty_act (h : Head) (t : Transition) : (act h t).tape.empty = h.tape.empty := by
  unfold act
  cases t.output with
  | none => rfl
  | some c => exact h.tape.empty_write h.position c

theorem position_act (h : Head) (t : Transition) :
    (act h t).position = min (h.position + t.direction.delta).toNat maxPosition := by
  unfold act
  cases t.output <;> rfl

theorem acts_of_settle {result : Except SimulationError Unit} {tape : Tape} (hs : s.Within tape)
    (h : (s.take t destination).settle = (result, u)) : s.Acts t u := by
  have hhead : u.head = act s.head t := by
    have hsettled := head_settle (s.take t destination)
    rwa [h] at hsettled
  have hcount : u.stepCount = s.stepCount + 1 := by
    have hsettled := stepCount_settle (s.take t destination)
    rwa [h] at hsettled
  have hproject : u.project = s.project := by
    rcases result with e | ⟨⟩
    · obtain ⟨_, -, rfl⟩ := settle_eq_error_iff.mp h
      rfl
    · obtain ⟨_, -, rfl⟩ := settle_eq_ok_iff.mp h
      rfl
  refine ⟨hproject, hcount, ?_, fun i => ?_, ?_, fun hle => ?_⟩
  · rw [hhead, empty_act]
  · rw [hhead, read_act]
  · rw [hhead, position_act]
  · have hposition := hs.position_le
    have hdelta := t.direction.delta_le
    rw [hhead, position_act]
    omega

/-- The frames after the calls that a transition leads to. -/
theorem exists_callChain_of_take (s : Simulation) (t : Transition) (destination : State) :
    ∃ links, (s.moved t destination).CallChain s.project links ∧
      ((s.take t destination).stack.enter s.project s.project.machineCount).2.frames =
        s.stack.callers.reverse ++ s.moved t destination :: links.map Prod.snd ∧
      (((s.take t destination).stack.enter s.project s.project.machineCount).1 = .ok () →
        ((s.moved t destination).chainEnd links).state.submachine = none) := by
  obtain ⟨links, hlinks, hpushed, hend⟩ := CallStack.exists_callChain_of_enter s.project
    (s.take t destination).stack s.project.machineCount
  refine ⟨links, hlinks, ?_, hend⟩
  rw [hpushed, CallStack.frames_pushAll]
  simp [CallStack.frames, take, moved, current]

theorem settles_of_settle_ok (hs : s.status = .running)
    (h : (s.take t destination).settle = (.ok (), u)) :
    s.Settles (s.moved t destination) u (.ok (.ofStatus u.status)) := by
  have hstatus := status_of_settle (s := s.take t destination) hs h
  obtain ⟨stack, henter, rfl⟩ := settle_eq_ok_iff.mp h
  obtain ⟨links, hlinks, hframes, hend⟩ := exists_callChain_of_take s t destination
  have hresult : (s.take t destination).stack.enter s.project s.project.machineCount =
      (.ok (), stack) := henter
  rw [hresult] at hframes hend
  obtain ⟨returned, hcut, hall⟩ := CallStack.exists_frames_unwindFrom stack.current stack.callers
  refine ⟨links, returned, hlinks, hend rfl, hframes.symm.trans hcut, hall,
    CallStack.callers_unwindFrom_of_accepting stack.current stack.callers, ?_, rfl⟩
  obtain ⟨haccepting, haccepted⟩ | ⟨hnot, hrunning⟩ := hstatus
  · rw [haccepted, haccepting, if_pos rfl]
  · rw [hrunning, hnot, if_neg Bool.false_ne_true]

theorem settles_of_settle_error {e : SimulationError} (hs : s.status = .running)
    (h : (s.take t destination).settle = (.error e, u)) :
    s.Settles (s.moved t destination) u (.error e) := by
  have hother : ∀ state machine, e ≠ .danglingDestination state machine := by
    rintro state machine rfl
    exact settle_ne_dangling _ _ state machine h
  obtain ⟨stack, henter, rfl⟩ := settle_eq_error_iff.mp h
  obtain ⟨links, hlinks, hframes, -⟩ := exists_callChain_of_take s t destination
  have hresult : (s.take t destination).stack.enter s.project s.project.machineCount =
      (.error e, stack) := henter
  rw [hresult] at hframes
  exact ⟨links, hlinks, hframes, hs, hother⟩

/-! ## The four kinds of steps -/

/-- What a step finds. -/
inductive StepKind where
  /-- The status is terminal. -/
  | halted
  /-- No stored transition reads the character under the head. -/
  | rejecting
  /-- The transition leads to nothing in its machine. -/
  | dangling
  /-- The transition leads to a state. -/
  | taking
deriving DecidableEq, Repr

/-- The state on top stores a transition that reads the character under the head. -/
def Offers (s : Simulation) (t : Transition) : Prop :=
  ∃ id, (id, t) ∈ s.current.state.transitions ∧ t.reads s.head.read = true

/-- What a step of each kind finds and does. -/
def Does (s : Simulation) : StepKind → Prop
  | .halted => s.status ≠ .running ∧ s.step = (.ok (.halts s.status), s)
  | .rejecting => s.status = .running ∧ (∀ t, ¬ s.Offers t) ∧
      s.step = (.ok (.halts .rejected), { s with status := .rejected })
  | .dangling => s.status = .running ∧ ∃ t, s.Offers t ∧
      s.current.machine.stateAt? t.destination = none ∧
      s.step =
        (.error (.danglingDestination s.current.state.name s.current.machine.name), s)
  | .taking => s.status = .running ∧ ∃ t destination, s.Offers t ∧
      s.current.machine.stateAt? t.destination = some destination ∧
      s.Acts t s.step.2 ∧ s.Settles (s.moved t destination) s.step.2 s.step.1

/-- The kind of the next step. -/
def stepKind (s : Simulation) : StepKind :=
  if s.status.isTerminal then .halted
  else
    match s.current.state.transitionFor? s.head.read with
    | none => .rejecting
    | some t => if (s.current.machine.stateAt? t.destination).isNone then .dangling else .taking

theorem offers_iff (hs : s.current.state.Indexed) :
    s.Offers t ↔ s.current.state.transitionFor? s.head.read = some t := by
  rw [hs.transitionFor?_eq_some_iff]
  simp [Offers, Transition.reads]

theorem not_offers_iff (hs : s.current.state.Indexed) :
    (∀ t, ¬ s.Offers t) ↔ s.current.state.transitionFor? s.head.read = none := by
  simp only [offers_iff hs, Option.eq_none_iff_forall_ne_some]

theorem stepKind_eq_of_does (hs : s.current.state.Indexed) {kind : StepKind} (h : s.Does kind) :
    kind = s.stepKind := by
  unfold stepKind
  cases kind with
  | halted => rw [if_pos (Status.isTerminal_eq_true_iff.mpr h.1)]
  | rejecting =>
    obtain ⟨hrunning, hnone, -⟩ := h
    simp [Status.isTerminal_eq_false_iff.mpr hrunning, (not_offers_iff hs).mp hnone]
  | dangling =>
    obtain ⟨hrunning, t, hoffers, hnone, -⟩ := h
    simp [Status.isTerminal_eq_false_iff.mpr hrunning, (offers_iff hs).mp hoffers, hnone]
  | taking =>
    obtain ⟨hrunning, t, destination, hoffers, hdestination, -⟩ := h
    simp [Status.isTerminal_eq_false_iff.mpr hrunning, (offers_iff hs).mp hoffers, hdestination]

theorem exists_does (hs : s.current.state.Indexed) {tape : Tape} (hwithin : s.Within tape) :
    ∃ kind, s.Does kind := by
  rcases hstep : s.step with ⟨e | outcome, u⟩
  · obtain ⟨hrunning, t, hread, ⟨hnone, rfl, rfl⟩ | ⟨destination, hdestination, hsettle⟩⟩ :=
      step_error_cases hstep
    · exact ⟨.dangling, hrunning, t, (offers_iff hs).mpr hread, hnone, hstep⟩
    · refine ⟨.taking, hrunning, t, destination, (offers_iff hs).mpr hread, hdestination, ?_⟩
      rw [hstep]
      exact ⟨acts_of_settle hwithin hsettle, settles_of_settle_error hrunning hsettle⟩
  · obtain ⟨hhalted, rfl, rfl⟩ | ⟨hrunning, hnone, rfl, rfl⟩ |
      ⟨hrunning, t, destination, hread, hdestination, hsettle, rfl⟩ := step_ok_cases hstep
    · exact ⟨.halted, hhalted, hstep⟩
    · exact ⟨.rejecting, hrunning, (not_offers_iff hs).mpr hnone, hstep⟩
    · refine ⟨.taking, hrunning, t, destination, (offers_iff hs).mpr hread, hdestination, ?_⟩
      rw [hstep]
      exact ⟨acts_of_settle hwithin hsettle, settles_of_settle_ok hrunning hsettle⟩

theorem Reached.indexed {p : Project} {name : String} {tape : Tape} (hp : p.WellFormed)
    (h : Reached p name tape s) : s.current.state.Indexed :=
  (h.settled hp).linked.valid_current.indexed hp

/-- A step of a simulation that calls have led to does exactly one of four things. Three of them
change the status at most. -/
theorem step_does_exactly_one {next : Identity} {p : Project} {name : String} {tape : Tape}
    (hp : p.Built next) (hs : Reached p name tape s) : ∃! kind, s.Does kind := by
  have hindexed := hs.indexed hp.wellFormed
  obtain ⟨kind, hkind⟩ := exists_does hindexed hs.within
  refine ⟨kind, hkind, fun other hother => ?_⟩
  rw [stepKind_eq_of_does hindexed hother, stepKind_eq_of_does hindexed hkind]

/-- A one leads the machine `main` to a state that calls `leaf` and comes back at once. From there a
two would lead to a state of another project. -/
def strandedSample : Project × Identity :=
  [Project.Edit.addMachine "main",
    .editMachine "main" (.addState "start"),
    .editMachine "main" (.addState "call"),
    .editMachine "main" (.editState "call" (.setSubmachine (some "leaf"))),
    .editMachine "main" (.addTransition "start" "call" "1" (some '0') .right),
    .editMachine "main" (.editState "call" (.addTransition ⟨9, 0⟩ "2" none .stay)),
    .addMachine "leaf",
    .editMachine "leaf" (.addState "start"),
    .editMachine "leaf" (.editState "start" (.setAccepting true))].foldl
    (fun built edit => edit.apply built) (Project.new 0, 1)

theorem built_strandedSample : strandedSample.1.Built strandedSample.2 :=
  (Project.Built.new 0).foldl_edit _

/-- After a step that takes its transition, a two strands the simulation and a three halts it. -/
theorem kinds_of_strandedSample : ∃ s t u v w,
    start strandedSample.1 "main" (.ofText "12" '_') = .ok s ∧
    s.step = (.ok .proceeds, t) ∧ s.Does .taking ∧ t.Does .dangling ∧
    start strandedSample.1 "main" (.ofText "13" '_') = .ok u ∧
    u.runFor 1 = (.ok .running, v) ∧ v.step = (.ok (.halts .rejected), w) ∧
    v.Does .rejecting ∧ w.Does .halted := by
  have hdoes : ∀ {tape : Tape} {s : Simulation}, Reached strandedSample.1 "main" tape s →
      s.Does s.stepKind := by
    intro tape s hs
    obtain ⟨kind, hkind, -⟩ := step_does_exactly_one built_strandedSample hs
    exact stepKind_eq_of_does (hs.indexed built_strandedSample.wellFormed) hkind ▸ hkind
  obtain ⟨s, t, hs, hst, hsKind, htKind⟩ : ∃ s t,
      start strandedSample.1 "main" (.ofText "12" '_') = .ok s ∧ s.step = (.ok .proceeds, t) ∧
        s.stepKind = .taking ∧ t.stepKind = .dangling :=
    ⟨((start strandedSample.1 "main" (.ofText "12" '_')).toOption).get rfl, _, rfl,
      Prod.ext (by decide +kernel) rfl, by decide +kernel, by decide +kernel⟩
  obtain ⟨u, v, w, hu, huv, hvw, hvKind, hwKind⟩ : ∃ u v w,
      start strandedSample.1 "main" (.ofText "13" '_') = .ok u ∧
        u.runFor 1 = (.ok .running, v) ∧ v.step = (.ok (.halts .rejected), w) ∧
        v.stepKind = .rejecting ∧ w.stepKind = .halted :=
    ⟨((start strandedSample.1 "main" (.ofText "13" '_')).toOption).get rfl, _, _, rfl,
      Prod.ext (by decide +kernel) rfl, Prod.ext (by decide +kernel) rfl, by decide +kernel,
      by decide +kernel⟩
  have hv := (Reached.start hu).runFor huv
  exact ⟨s, t, u, v, w, hs, hst, hsKind ▸ hdoes (.start hs),
    htKind ▸ hdoes ((Reached.start hs).step hst), hu, huv, hvw, hvKind ▸ hdoes hv,
    hwKind ▸ hdoes (hv.step hvw)⟩

end Simulation

end HierarchicalTuring
