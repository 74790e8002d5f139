import HierarchicalTuring.Proofs.Project.Built
import HierarchicalTuring.Proofs.Simulation.Run
import HierarchicalTuring.Proofs.Tape.Contents
import Mathlib.Logic.Function.Iterate

/-! # What a run sees of its tape

A head moves one cell at a time, so a run of `n` steps has to do with the first `n` cells only.

* `Simulation.Within tape s`: the head is no further than the steps taken, and neither the cells
  from there on nor the stored length come from anything but the first tape. Every step keeps it
  (`Within.step`).
* `Simulation.Alike P s t`: two simulations differ in cells outside `P` at most. A step keeps that
  while the head stands in `P` (`Alike.step`).
* `runs_are_local` puts both together, for runs on one tape and on two.
-/

set_option autoImplicit false

namespace HierarchicalTuring

/-! ## Movements -/

theorem Direction.delta_le (d : Direction) : d.delta ≤ 1 := by
  cases d <;> decide

namespace Head

theorem position_move_le (h : Head) (d : Direction) : (h.move d).position ≤ h.position + 1 := by
  have hdelta := d.delta_le
  have hposition := h.position_moveBy d.delta
  simp only [move, hposition]
  omega

@[simp] theorem tape_move (h : Head) (d : Direction) : (h.move d).tape = h.tape := rfl

theorem position_move_congr {h h' : Head} (heq : h.position = h'.position) (d : Direction) :
    (h.move d).position = (h'.move d).position := by
  simp only [move, position_moveBy, heq]

end Head

namespace Simulation

/-! ## One tape -/

/-- The head is no further than the steps taken. The cells from there on are those of a tape, and
the stored part is longer only as far as the steps reach. -/
structure Within (tape : Tape) (s : Simulation) : Prop where
  position_le : s.head.position ≤ s.stepCount
  read_eq : ∀ i, s.stepCount ≤ i → s.head.tape.read i = tape.read i
  length_le : s.head.tape.length ≤ max tape.length s.stepCount

theorem position_act_le (h : Head) (t : Transition) : (act h t).position ≤ h.position + 1 := by
  unfold act
  cases t.output with
  | none => exact h.position_move_le t.direction
  | some c => exact (h.write c).position_move_le t.direction

theorem read_act_of_ne (h : Head) (t : Transition) {i : Nat} (hi : i ≠ h.position) :
    (act h t).tape.read i = h.tape.read i := by
  unfold act
  cases t.output with
  | none => rfl
  | some c =>
    have hwrite := h.tape.read_write h.position c i
    rwa [if_neg hi] at hwrite

theorem length_act_le (h : Head) (t : Transition) :
    (act h t).tape.length ≤ max h.tape.length (h.position + 1) := by
  unfold act
  cases t.output with
  | none => exact Nat.le_max_left _ _
  | some c => exact Nat.le_of_eq (h.tape.length_write h.position c)

/-- What a step leaves, whether or not it goes well. -/
theorem step_snd_cases (s : Simulation) :
    s.step.2 = s ∨ s.step.2 = { s with status := .rejected } ∨
      ∃ transition destination, s.step.2 = (s.take transition destination).settle.2 := by
  rcases hstep : s.step with ⟨_ | _, t⟩
  · obtain ⟨-, transition, -, ⟨-, -, hsame⟩ | ⟨destination, -, hsettle⟩⟩ := step_error_cases hstep
    · exact .inl hsame
    · exact .inr (.inr ⟨transition, destination, by rw [hsettle]⟩)
  · obtain ⟨-, -, hsame⟩ | ⟨-, -, -, hrejected⟩ | ⟨-, transition, destination, -, -, hsettle, -⟩ :=
      step_ok_cases hstep
    · exact .inl hsame
    · exact .inr (.inl hrejected)
    · exact .inr (.inr ⟨transition, destination, by rw [hsettle]⟩)

theorem stepCount_step_le (s : Simulation) : s.step.2.stepCount ≤ s.stepCount + 1 := by
  obtain hsame | hrejected | ⟨transition, destination, htaken⟩ := step_snd_cases s
  · simp [hsame]
  · simp [hrejected]
  · rw [htaken, stepCount_settle]
    exact Nat.le_refl _

theorem stepCount_iterate_le (s : Simulation) (n : Nat) :
    ((fun u => u.step.2)^[n] s).stepCount ≤ s.stepCount + n := by
  induction n generalizing s with
  | zero => exact Nat.le_refl _
  | succ n ih =>
    have hrest := ih s.step.2
    have hfirst := s.stepCount_step_le
    rw [Function.iterate_succ_apply]
    omega

namespace Within

variable {tape : Tape} {s t : Simulation}

theorem of_head_eq (h : s.Within tape) (hhead : t.head = s.head)
    (hcount : t.stepCount = s.stepCount) : t.Within tape := by
  obtain ⟨hposition, hread, hlength⟩ := h
  rw [← hhead, ← hcount] at hposition hlength
  rw [← hhead, ← hcount] at hread
  exact ⟨hposition, hread, hlength⟩

theorem take (h : s.Within tape) (transition : Transition) (destination : State) :
    (s.take transition destination).Within tape where
  position_le := by
    have hmoved := position_act_le s.head transition
    have hposition := h.position_le
    show (act s.head transition).position ≤ s.stepCount + 1
    omega
  read_eq := by
    intro i hi
    have hbelow : s.stepCount + 1 ≤ i := hi
    have hposition := h.position_le
    show (act s.head transition).tape.read i = tape.read i
    rw [read_act_of_ne s.head transition (by omega)]
    exact h.read_eq i (by omega)
  length_le := by
    have hwritten := length_act_le s.head transition
    have hposition := h.position_le
    have hlength := h.length_le
    show (act s.head transition).tape.length ≤ max tape.length (s.stepCount + 1)
    omega

theorem settle (h : s.Within tape) : s.settle.2.Within tape :=
  h.of_head_eq (head_settle s) (stepCount_settle s)

/-- This holds of a step that fails, too: it may have taken its transition already. -/
theorem step (h : s.Within tape) : s.step.2.Within tape := by
  obtain hsame | hrejected | ⟨transition, destination, htaken⟩ := step_snd_cases s
  · rwa [hsame]
  · exact h.of_head_eq (by rw [hrejected]) (by rw [hrejected])
  · rw [htaken]
    exact (h.take transition destination).settle

theorem iterate (h : s.Within tape) (n : Nat) : ((fun u => u.step.2)^[n] s).Within tape := by
  induction n generalizing s with
  | zero => exact h
  | succ n ih => exact ih h.step

end Within

/-! ## Two tapes -/

/-- Everything is the same but for cells at positions outside of `P`. -/
structure Alike (P : Nat → Prop) (s t : Simulation) : Prop where
  project : s.project = t.project
  stack : s.stack = t.stack
  status : s.status = t.status
  stepCount : s.stepCount = t.stepCount
  position : s.head.position = t.head.position
  read : ∀ i, P i → s.head.tape.read i = t.head.tape.read i

namespace Alike

variable {P : Nat → Prop} {s t : Simulation}

theorem act (h : s.Alike P t) (transition : Transition) :
    (act s.head transition).position = (act t.head transition).position ∧
      ∀ i, P i → (act s.head transition).tape.read i = (act t.head transition).tape.read i := by
  have hposition := h.position
  unfold Simulation.act
  cases transition.output with
  | none => exact ⟨Head.position_move_congr hposition _, h.read⟩
  | some c =>
    refine ⟨Head.position_move_congr hposition _, fun i hi => ?_⟩
    simp only [Head.tape_move, Head.write, Tape.read_write, hposition, h.read i hi]

theorem take (h : s.Alike P t) (transition : Transition) (destination : State) :
    (s.take transition destination).Alike P (t.take transition destination) where
  project := h.project
  stack := by simp only [Simulation.take, h.stack]
  status := h.status
  stepCount := by simp only [Simulation.take, h.stepCount]
  position := (h.act transition).1
  read := (h.act transition).2

/-- Calls and returns do not look at the tape. -/
theorem settle (h : s.Alike P t) : s.settle.1 = t.settle.1 ∧ s.settle.2.Alike P t.settle.2 := by
  obtain ⟨hproject, hstack, hstatus, hcount, hposition, hread⟩ := h
  unfold Simulation.settle enterSubmachines
  rw [hproject, hstack]
  rcases t.stack.enter t.project t.project.machineCount with ⟨_ | _, stack⟩
  · exact ⟨rfl, rfl, rfl, hstatus, hcount, hposition, hread⟩
  · refine ⟨rfl, rfl, rfl, ?_, hcount, hposition, hread⟩
    simp only [returnFromAccepting, hstatus]

theorem step (h : s.Alike P t) (hhead : P s.head.position) :
    s.step.1 = t.step.1 ∧ s.step.2.Alike P t.step.2 := by
  have hcurrent : s.current = t.current := by simp only [current, h.stack]
  have hread : s.head.read = t.head.read := by
    show s.head.tape.read s.head.position = t.head.tape.read t.head.position
    rw [h.read _ hhead, h.position]
  by_cases hs : s.status = .running
  · have ht : t.status = .running := h.status ▸ hs
    rw [step_of_running hs, step_of_running ht, hcurrent, hread]
    cases t.current.state.transitionFor? t.head.read with
    | none => exact ⟨rfl, h.project, h.stack, rfl, h.stepCount, h.position, h.read⟩
    | some transition =>
      dsimp only
      cases t.current.machine.stateAt? transition.destination with
      | none => exact ⟨rfl, h⟩
      | some destination =>
        dsimp only
        have hsettled := (h.take transition destination).settle
        generalize (s.take transition destination).settle = left,
          (t.take transition destination).settle = right at hsettled ⊢
        obtain ⟨result, s'⟩ := left
        obtain ⟨result', t'⟩ := right
        obtain ⟨hresult, halike⟩ := hsettled
        cases hresult
        cases result with
        | error e => exact ⟨rfl, halike⟩
        | ok _ => exact ⟨congrArg (Except.ok ∘ Outcome.ofStatus) halike.status, halike⟩
  · have ht : t.status ≠ .running := h.status ▸ hs
    rw [step_of_isTerminal (Status.isTerminal_eq_true_iff.mpr hs),
      step_of_isTerminal (Status.isTerminal_eq_true_iff.mpr ht), h.status]
    exact ⟨rfl, h⟩

theorem iterate (h : s.Alike P t) {n : Nat}
    (hreach : ∀ j < n, P ((fun u => u.step.2)^[j] s).head.position) :
    ((fun u => u.step.2)^[n] s).Alike P ((fun u => u.step.2)^[n] t) := by
  induction n generalizing s t with
  | zero => exact h
  | succ n ih =>
    have hfirst := h.step (hreach 0 (Nat.succ_pos n))
    exact ih hfirst.2 fun j hj => hreach (j + 1) (Nat.succ_lt_succ hj)

theorem runFor (h : s.Alike (fun _ => True) t) (n : Nat) :
    (s.runFor n).1 = (t.runFor n).1 ∧ (s.runFor n).2.Alike (fun _ => True) (t.runFor n).2 := by
  induction n generalizing s t with
  | zero => exact ⟨congrArg Except.ok h.status, h⟩
  | succ n ih =>
    have hstep := h.step trivial
    unfold Simulation.runFor
    generalize s.step = left, t.step = right at hstep ⊢
    obtain ⟨result, s'⟩ := left
    obtain ⟨result', t'⟩ := right
    obtain ⟨hresult, halike⟩ := hstep
    cases hresult
    cases result with
    | error e => exact ⟨rfl, halike⟩
    | ok outcome =>
      cases outcome with
      | proceeds => exact ih halike
      | halts status => exact ⟨rfl, halike⟩

theorem contents_eq (h : s.Alike (fun _ => True) t) :
    s.head.tape.contents = t.head.tape.contents :=
  Tape.contents_eq_of_read fun i => h.read i trivial

end Alike

/-! ## Starts -/

variable {p : Project} {name : String} {tape : Tape} {s : Simulation}

theorem within_of_start (h : start p name tape = .ok s) : s.Within tape := by
  obtain ⟨hhead, hcount, -⟩ := fields_of_start h
  exact ⟨by simp [hhead, Head.start], fun i _ => by simp [hhead, Head.start],
    by simp [hhead, hcount, Head.start]⟩

theorem position_iterate_le (h : start p name tape = .ok s) (n : Nat) :
    ((fun u => u.step.2)^[n] s).head.position ≤ n := by
  have hposition := ((within_of_start h).iterate n).position_le
  have hcount := s.stepCount_iterate_le n
  have hzero := (fields_of_start h).2.1
  omega

theorem start_alike {P : Nat → Prop} {other : Tape} (hread : ∀ i, P i → tape.read i = other.read i)
    (p : Project) (name : String) :
    Agree Eq (Alike P) (start p name tape) (start p name other) := by
  unfold start
  cases p.machine? name with
  | none => exact .error rfl
  | some machine =>
    dsimp only
    cases Frame.start machine with
    | error e => exact .error rfl
    | ok frame =>
      have hunsettled : (unsettled p tape frame).Alike P (unsettled p other frame) :=
        ⟨rfl, rfl, rfl, rfl, rfl, hread⟩
      have hsettled := hunsettled.settle
      unfold unsettled at hsettled
      dsimp only
      generalize settle ⟨p, .start tape, ⟨frame, []⟩, .running, 0⟩ = left,
        settle ⟨p, .start other, ⟨frame, []⟩, .running, 0⟩ = right at hsettled ⊢
      obtain ⟨result, s'⟩ := left
      obtain ⟨result', t'⟩ := right
      obtain ⟨hresult, halike⟩ := hsettled
      cases hresult
      cases result with
      | error e => exact .error rfl
      | ok _ => exact .ok halike

/-- After steps that go well the head is at most as far as the steps taken, the cells from there on
are as they were, and no more was stored than the steps reach. So on two tapes with the same cells
below `k` the first `k` steps have the same results, errors included, and differ nowhere but in
cells from `k` on; on two tapes that read the same everywhere, runs of every length are the same and
leave the same contents. -/
theorem runs_are_local (p : Project) (name : String) (tape : Tape) :
    (∀ s n t, start p name tape = .ok s → Steps n s t → t.Within tape) ∧
    (∀ k other, (∀ i < k, tape.read i = other.read i) →
      Agree Eq (fun s s' => ∀ n ≤ k,
          ((fun u => u.step.2)^[n] s).Alike (· < k) ((fun u => u.step.2)^[n] s') ∧
          (n < k → ((fun u => u.step.2)^[n] s).step.1 = ((fun u => u.step.2)^[n] s').step.1))
        (start p name tape) (start p name other)) ∧
    (∀ other, (∀ i, tape.read i = other.read i) →
      tape.contents = other.contents ∧
      Agree Eq (fun s s' => ∀ n,
          ((fun u => u.step.2)^[n] s).Alike (fun _ => True) ((fun u => u.step.2)^[n] s') ∧
          ((fun u => u.step.2)^[n] s).step.1 = ((fun u => u.step.2)^[n] s').step.1 ∧
          (s.runFor n).1 = (s'.runFor n).1 ∧
          (s.runFor n).2.Alike (fun _ => True) (s'.runFor n).2 ∧
          (s.runFor n).2.head.tape.contents = (s'.runFor n).2.head.tape.contents)
        (start p name tape) (start p name other)) := by
  refine ⟨?_, ?_, ?_⟩
  · intro s n t hstart hsteps
    refine hsteps.keeps (P := Within tape) ?_ (within_of_start hstart)
    intro u v outcome hu hstep
    have hv := hu.step
    rwa [hstep] at hv
  · intro k other hread
    refine (start_alike hread p name).imp_of_ok fun s s' hstart _ halike n hn => ?_
    have hreach : ∀ j ≤ n, j < k → ((fun u => u.step.2)^[j] s).head.position < k := by
      intro j _ hj
      exact Nat.lt_of_le_of_lt (position_iterate_le hstart j) hj
    have hafter := halike.iterate fun j (hj : j < n) => hreach j (by omega) (by omega)
    exact ⟨hafter, fun hlt => (hafter.step (hreach n (Nat.le_refl n) hlt)).1⟩
  · intro other hread
    have hstart : Agree Eq (Alike fun _ => True) (start p name tape) (start p name other) :=
      start_alike (fun i _ => hread i) p name
    refine ⟨Tape.contents_eq_of_read hread, hstart.imp fun s s' halike n => ?_⟩
    have hafter : ((fun u => u.step.2)^[n] s).Alike (fun _ => True) ((fun u => u.step.2)^[n] s') :=
      halike.iterate fun _ _ => trivial
    have hrun := halike.runFor n
    exact ⟨hafter, (hafter.step trivial).1, hrun.1, hrun.2, hrun.2.contents_eq⟩

/-- The machine `main` after two steps, on tapes that differ in the third cell or in an empty cell
that only one of them stores. -/
theorem local_on_sample : ∃ s t u, start Project.sample.1 "main" (.ofText "111+" '_') = .ok s ∧
    start Project.sample.1 "main" (.ofText "11" ' ') = .ok t ∧
    start Project.sample.1 "main" ((Tape.ofText "111+" '_').write 4 '_') = .ok u ∧
    s.step.2.step.2.Within (.ofText "111+" '_') ∧
    s.step.2.step.2.Alike (· < 2) t.step.2.step.2 ∧ s.step.2.step.1 = t.step.2.step.1 ∧
    (s.runFor 4).2.head.tape.contents = (u.runFor 4).2.head.tape.contents := by
  let s := ((start Project.sample.1 "main" (.ofText "111+" '_')).toOption).get rfl
  have hstart : start Project.sample.1 "main" (.ofText "111+" '_') = .ok s := rfl
  have hsteps : Steps 2 s s.step.2.step.2 :=
    .succ_of_isSome (by decide +kernel) (.succ_of_isSome (by decide +kernel) rfl)
  have hread : ∀ i < 2, (Tape.ofText "111+" '_').read i = (Tape.ofText "11" ' ').read i := by
    decide
  have hpadded : ∀ i, (Tape.ofText "111+" '_').read i =
      ((Tape.ofText "111+" '_').write 4 '_').read i := by
    intro i
    rw [Tape.read_write]
    split
    · next hi => rw [hi]; rfl
    · rfl
  obtain ⟨hwithin, hbelow, heverywhere⟩ :=
    runs_are_local Project.sample.1 "main" (.ofText "111+" '_')
  have hfirst := hbelow 2 (.ofText "11" ' ') hread
  have hsecond := (heverywhere ((Tape.ofText "111+" '_').write 4 '_') hpadded).2
  rw [hstart] at hfirst hsecond
  cases hfirst with
  | ok hfirst =>
    cases hsecond with
    | ok hsecond =>
      exact ⟨s, _, _, hstart, rfl, rfl, hwithin s 2 _ hstart hsteps, (hfirst 2 (by decide)).1,
        (hfirst 1 (by decide)).2 (by decide), (hsecond 4).2.2.2.2⟩

end Simulation

end HierarchicalTuring
