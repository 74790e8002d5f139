import HierarchicalTuring.Proofs.Simulation.Bounded
import HierarchicalTuring.Proofs.Simulation.Frames
import HierarchicalTuring.Proofs.Simulation.Locality

/-! # Runs in slices

A bounded run is as many steps as its bound, stopped by the first one that fails
(`Simulation.runFor_eq_ok_iff`, `Simulation.runFor_eq_error_iff_exists_step`). A step of a terminal
simulation does nothing, so this holds as well where the run halts before its bound.

* `Simulation.bounded_runs_compose`: a run may be cut into slices anywhere, and a run without a bound
  is one with a bound that is high enough.
* `Simulation.Reached`: a simulation that calls have led to, none of which failed. Steps alone lead
  there as well (`Reached.exists_steps`).
-/

set_option autoImplicit false

namespace HierarchicalTuring

namespace Simulation

variable {s t : Simulation} {n k : Nat} {status : Status}

/-! ## Steps and their count -/

theorem stepCount_of_step_ok {outcome : Outcome} (h : s.step = (.ok outcome, t)) :
    s.stepCount ≤ t.stepCount ∧ t.stepCount ≤ s.stepCount + 1 := by
  by_cases hs : s.status = .running
  · obtain ⟨-, -, hcount⟩ | ⟨-, -, hcount⟩ | ⟨-, -, rfl⟩ := step_ok_of_running hs h
    · omega
    · omega
    · exact ⟨Nat.le_refl _, Nat.le_succ _⟩
  · rw [step_of_isTerminal (Status.isTerminal_eq_true_iff.mpr hs)] at h
    cases h
    exact ⟨Nat.le_refl _, Nat.le_succ _⟩

theorem Steps.stepCount_le (h : Steps k s t) :
    s.stepCount ≤ t.stepCount ∧ t.stepCount ≤ s.stepCount + k := by
  induction k generalizing s with
  | zero =>
    have hst : s = t := h
    rw [hst]
    exact ⟨Nat.le_refl _, Nat.le_refl _⟩
  | succ k ih =>
    obtain ⟨outcome, u, hstep, hrest⟩ := h
    have hfirst := stepCount_of_step_ok hstep
    have hothers := ih hrest
    omega

/-- Steps that end in a terminal simulation are a run without a bound. -/
theorem Steps.runsTo (h : Steps k s t) (ht : t.status ≠ .running) : RunsTo s t.status t := by
  induction k generalizing s with
  | zero =>
    have hst : s = t := h
    rw [hst]
    exact .halted (Status.isTerminal_eq_true_iff.mpr ht)
  | succ k ih =>
    by_cases hs : s.status = .running
    · obtain ⟨outcome, u, hstep, hrest⟩ := h
      exact .step (Status.isTerminal_eq_false_iff.mpr hs) hstep (ih hrest)
    · rw [h.eq_of_terminal hs]
      exact .halted (Status.isTerminal_eq_true_iff.mpr hs)

/-! ## Bounded runs as steps -/

theorem runFor_eq_ok_iff : s.runFor n = (.ok status, t) ↔ Steps n s t ∧ t.status = status := by
  induction n generalizing s with
  | zero =>
    rw [runFor_zero, Prod.mk.injEq, Except.ok.injEq]
    constructor
    · rintro ⟨rfl, rfl⟩
      exact ⟨rfl, rfl⟩
    · rintro ⟨hst, rfl⟩
      have hst : s = t := hst
      exact ⟨by rw [hst], hst⟩
  | succ n ih =>
    rcases hstep : s.step with ⟨e | outcome, u⟩
    · rw [runFor_succ_of_error hstep]
      refine ⟨nofun, ?_⟩
      rintro ⟨⟨_, _, hok, -⟩, -⟩
      rw [hstep] at hok
      cases hok
    · rw [runFor_succ_of_ok hstep, ih, Steps.succ_iff hstep]

theorem runFor_eq_running_iff : s.runFor n = (.ok .running, t) ↔
    Steps n s t ∧ t.status = .running ∧ t.stepCount = s.stepCount + n := by
  rw [runFor_eq_ok_iff]
  exact and_congr_right fun hsteps => ⟨fun ht => ⟨ht, hsteps.stepCount_eq ht⟩, And.left⟩

theorem runFor_eq_error_iff_exists_step {e : SimulationError} : s.runFor n = (.error e, t) ↔
    ∃ k < n, ∃ u, Steps k s u ∧ u.step = (.error e, t) := by
  constructor
  · intro h
    induction n generalizing s with
    | zero => cases h
    | succ n ih =>
      rcases hstep : s.step with ⟨e' | outcome, u⟩
      · rw [runFor_succ_of_error hstep] at h
        cases h
        exact ⟨0, Nat.succ_pos n, s, rfl, hstep⟩
      · rw [runFor_succ_of_ok hstep] at h
        obtain ⟨k, hk, v, hsteps, herror⟩ := ih h
        exact ⟨k + 1, Nat.succ_lt_succ hk, v, ⟨outcome, u, hstep, hsteps⟩, herror⟩
  · rintro ⟨k, hk, u, hsteps, herror⟩
    obtain ⟨m, rfl⟩ : ∃ m, n = k + (m + 1) := ⟨n - k - 1, by omega⟩
    rw [hsteps.runFor_add, runFor_succ_of_error herror]

/-- A bounded run is that many steps, stopped by the first that fails. It may be cut anywhere: another
run goes on as a single one would have done, and does nothing once the simulation has halted. A run
that still goes on has counted every step. A run without a bound halts exactly when one with a bound
does, in the same way. -/
theorem bounded_runs_compose (s : Simulation) :
    (∀ n status t, s.runFor n = (.ok status, t) ↔ Steps n s t ∧ t.status = status) ∧
    (∀ n e t, s.runFor n = (.error e, t) ↔
      ∃ k < n, ∃ u, Steps k s u ∧ u.step = (.error e, t)) ∧
    (∀ n status t, s.runFor n = (.ok status, t) →
      (∀ m, s.runFor (n + m) = t.runFor m) ∧
      (status = .running → t.stepCount = s.stepCount + n) ∧
      s.stepCount ≤ t.stepCount ∧ t.stepCount ≤ s.stepCount + n ∧
      (status ≠ .running → ∀ m ≥ n, s.runFor m = (.ok status, t))) ∧
    ∀ status t, RunsTo s status t ↔ status ≠ .running ∧ ∃ n, s.runFor n = (.ok status, t) := by
  refine ⟨fun n status t => runFor_eq_ok_iff, fun n e t => runFor_eq_error_iff_exists_step, ?_, ?_⟩
  · intro n status t h
    obtain ⟨hsteps, rfl⟩ := runFor_eq_ok_iff.mp h
    have hbounds := hsteps.stepCount_le
    refine ⟨hsteps.runFor_add, hsteps.stepCount_eq, hbounds.1, hbounds.2, fun hhalted m hm => ?_⟩
    obtain ⟨rest, rfl⟩ := Nat.exists_eq_add_of_le hm
    rw [hsteps.runFor_add, runFor_of_terminal hhalted]
  · intro status t
    constructor
    · intro h
      obtain ⟨enough, henough⟩ := h.exists_runFor
      exact ⟨h.isTerminal, enough, henough enough (Nat.le_refl _)⟩
    · rintro ⟨hhalted, n, h⟩
      obtain ⟨hsteps, rfl⟩ := runFor_eq_ok_iff.mp h
      exact hsteps.runsTo hhalted

/-- A run of the sample in two slices, the second one longer than what is left. -/
theorem sample_in_slices : ∃ s t u,
    start Project.sample.1 "main" (.ofText "111+" '_') = .ok s ∧
      s.runFor 2 = (.ok .running, t) ∧ t.stepCount = 2 ∧
      t.runFor 7 = (.ok .accepted, u) ∧ s.runFor 9 = (.ok .accepted, u) ∧
      RunsTo s .accepted u := by
  obtain ⟨s, hs, hfirst, hwhole⟩ : ∃ s, start Project.sample.1 "main" (.ofText "111+" '_') = .ok s ∧
      (s.runFor 2).1 = .ok .running ∧ (s.runFor 9).1 = .ok .accepted :=
    ⟨((start Project.sample.1 "main" (.ofText "111+" '_')).toOption).get rfl, rfl,
      by decide +kernel, by decide +kernel⟩
  obtain ⟨t, ht⟩ : ∃ t, s.runFor 2 = (.ok .running, t) := ⟨_, Prod.ext hfirst rfl⟩
  obtain ⟨u, hu⟩ : ∃ u, s.runFor 9 = (.ok .accepted, u) := ⟨_, Prod.ext hwhole rfl⟩
  obtain ⟨-, -, hslices, hruns⟩ := bounded_runs_compose s
  obtain ⟨hresume, hcount, -⟩ := hslices 2 _ _ ht
  refine ⟨s, t, u, hs, ht, ?_, (hresume 7).symm.trans hu, hu, (hruns _ _).mpr ⟨by simp, 9, hu⟩⟩
  rw [hcount rfl, (fields_of_start hs).2.1]

/-! ## Simulations that calls lead to -/

theorem Steps.append {u : Simulation} {m : Nat} (h : Steps n s t) (h' : Steps m t u) :
    Steps (n + m) s u := by
  have hu : t.runFor m = (.ok u.status, u) := runFor_eq_ok_iff.mpr ⟨h', rfl⟩
  rw [← h.runFor_add] at hu
  exact (runFor_eq_ok_iff.mp hu).1

/-- A simulation was started, then stepped and run, and no call failed. -/
inductive Reached (p : Project) (name : String) (tape : Tape) : Simulation → Prop
  | start {s : Simulation} : start p name tape = .ok s → Reached p name tape s
  | step {s t : Simulation} {outcome : Outcome} :
      Reached p name tape s → s.step = (.ok outcome, t) → Reached p name tape t
  | runFor {s t : Simulation} {n : Nat} {status : Status} :
      Reached p name tape s → s.runFor n = (.ok status, t) → Reached p name tape t
  | run {s t : Simulation} {status : Status} :
      Reached p name tape s → RunsTo s status t → Reached p name tape t

namespace Reached

variable {p : Project} {name : String} {tape : Tape}

theorem exists_steps (h : Reached p name tape s) :
    ∃ first n, Simulation.start p name tape = .ok first ∧ Steps n first s := by
  induction h with
  | @start s hs => exact ⟨s, 0, hs, rfl⟩
  | step _ hstep ih =>
    obtain ⟨first, n, hfirst, hsteps⟩ := ih
    exact ⟨first, n + 1, hfirst, hsteps.append ⟨_, _, hstep, rfl⟩⟩
  | runFor _ hrun ih =>
    obtain ⟨first, n, hfirst, hsteps⟩ := ih
    exact ⟨first, _, hfirst, hsteps.append (runFor_eq_ok_iff.mp hrun).1⟩
  | run _ hrun ih =>
    obtain ⟨first, n, hfirst, hsteps⟩ := ih
    obtain ⟨enough, henough⟩ := hrun.exists_runFor
    have hbounded := henough enough (Nat.le_refl _)
    exact ⟨first, _, hfirst, hsteps.append (runFor_eq_ok_iff.mp hbounded).1⟩

theorem settled (hp : p.WellFormed) (h : Reached p name tape s) : s.Settled p name := by
  obtain ⟨first, n, hfirst, hsteps⟩ := h.exists_steps
  exact settled_of_steps hp hfirst hsteps

theorem within (h : Reached p name tape s) : s.Within tape := by
  obtain ⟨first, n, hfirst, hsteps⟩ := h.exists_steps
  refine hsteps.keeps (P := Within tape) ?_ (within_of_start hfirst)
  intro u v outcome hu hstep
  have hv := hu.step
  rwa [hstep] at hv

end Reached

end Simulation

end HierarchicalTuring
