import HierarchicalTuring.Proofs.Simulation.Run

/-! # Bounded runs

A bounded run counts its steps, and a rejection takes one step more than the transitions before it.

* `Steps.runFor_add`: a bounded run goes on where steps have led.
* `Simulation.EndsWithin s n result t`: the four ways in which a run of at most `n` transitions
  ends, said by the transitions alone. A bounded run ends so (`endsWithin_runFor`), in the only way
  it can (`EndsWithin.runFor_eq`).
* `passed s n`: the simulations that a bounded run passes on its way, which are the ones that are
  still running (`getElem?_passed`).
* `RunsTo.exists_runFor`: a run that halts is a bounded run with any bound that is high enough.
-/

set_option autoImplicit false

namespace HierarchicalTuring

namespace Simulation

variable {s t u : Simulation} {n k : Nat}

/-! ## One step of a bounded run -/

/-- A step that goes well from a running simulation takes a transition, or finds none. -/
theorem step_ok_of_running {outcome : Outcome} (hs : s.status = .running)
    (h : s.step = (.ok outcome, t)) :
    (outcome = .proceeds ∧ t.status = .running ∧ t.stepCount = s.stepCount + 1) ∨
    (outcome = .halts .accepted ∧ t.status = .accepted ∧ t.stepCount = s.stepCount + 1) ∨
    (outcome = .halts .rejected ∧ s.current.state.transitionFor? s.head.read = none ∧
      t = { s with status := .rejected }) := by
  obtain ⟨hnot, -⟩ | ⟨-, hnone, houtcome, hrejected⟩ |
    ⟨-, transition, destination, -, -, hsettle, houtcome⟩ := step_ok_cases h
  · exact absurd hs hnot
  · exact .inr (.inr ⟨houtcome, hnone, hrejected⟩)
  · have hcount : t.stepCount = s.stepCount + 1 := by
      have hsettled := stepCount_settle (s.take transition destination)
      rwa [hsettle] at hsettled
    obtain ⟨-, hstatus⟩ | ⟨-, hstatus⟩ :=
      status_of_settle (s := s.take transition destination) hs hsettle
    · exact .inr (.inl ⟨by simp [houtcome, hstatus, Outcome.ofStatus], hstatus, hcount⟩)
    · exact .inl ⟨by simp [houtcome, hstatus], hstatus, hcount⟩

theorem runFor_succ_of_ok {outcome : Outcome} (h : s.step = (.ok outcome, t)) (n : Nat) :
    s.runFor (n + 1) = t.runFor n := by
  by_cases hs : s.status = .running
  · obtain ⟨rfl, -, -⟩ | ⟨rfl, hstatus, -⟩ | ⟨rfl, -, rfl⟩ := step_ok_of_running hs h
    · simp only [runFor, h]
    · have hterminal : t.status ≠ .running := by simp [hstatus]
      simp only [runFor, h, runFor_of_terminal hterminal, hstatus]
    · have hterminal : ({ s with status := .rejected } : Simulation).status ≠ .running := by simp
      simp only [runFor, h, runFor_of_terminal hterminal]
  · have hsame := step_of_isTerminal (Status.isTerminal_eq_true_iff.mpr hs)
    rw [h] at hsame
    cases hsame
    rw [runFor_of_terminal hs, runFor_of_terminal hs]

theorem runFor_succ_of_error {e : SimulationError} (h : s.step = (.error e, t)) (n : Nat) :
    s.runFor (n + 1) = (.error e, t) := by
  simp only [runFor, h]

/-! ## Bounded runs and steps -/

theorem Steps.runFor_add (h : Steps k s t) (n : Nat) : s.runFor (k + n) = t.runFor n := by
  induction k generalizing s with
  | zero =>
    have hst : s = t := h
    rw [hst, Nat.zero_add]
  | succ k ih =>
    obtain ⟨outcome, u, hstep, hrest⟩ := h
    rw [Nat.succ_add, runFor_succ_of_ok hstep, ih hrest]

theorem Steps.stepCount_eq (h : Steps k s t) (ht : t.status = .running) :
    t.stepCount = s.stepCount + k := by
  induction k generalizing s with
  | zero =>
    have hst : s = t := h
    simp [hst]
  | succ k ih =>
    have hs := h.running_of_running ht
    obtain ⟨outcome, u, hstep, hrest⟩ := h
    have hu := hrest.running_of_running ht
    have hcount := ih hrest
    obtain ⟨-, -, hnext⟩ | ⟨-, hstatus, -⟩ | ⟨-, -, hrejected⟩ := step_ok_of_running hs hstep
    · omega
    · simp [hu] at hstatus
    · simp [hrejected] at hu

/-- Steps that end a run end it with one of them. -/
theorem Steps.exists_last (h : Steps k s t) (hs : s.status = .running)
    (ht : t.status ≠ .running) :
    ∃ j u outcome, Steps j s u ∧ u.status = .running ∧ u.step = (.ok outcome, t) := by
  induction k generalizing s with
  | zero =>
    have hst : s = t := h
    exact absurd (hst ▸ hs) ht
  | succ k ih =>
    obtain ⟨outcome, v, hstep, hrest⟩ := h
    by_cases hv : v.status = .running
    · obtain ⟨j, u, last, hsteps, hu, hlast⟩ := ih hrest hv
      exact ⟨j + 1, u, last, ⟨outcome, v, hstep, hsteps⟩, hu, hlast⟩
    · have htv : t = v := hrest.eq_of_terminal hv
      exact ⟨0, s, outcome, rfl, hs, htv ▸ hstep⟩

/-! ## How bounded runs end -/

/-- What a run of at most `n` transitions ends with. A rejection leaves one of them unused, since it
is found out by a step that takes none. -/
inductive EndsWithin (s : Simulation) (n : Nat) :
    Except SimulationError Status → Simulation → Prop
  | accepted {k : Nat} {t : Simulation} : Steps k s t → t.status = .accepted →
      t.stepCount ≤ s.stepCount + n → EndsWithin s n (.ok .accepted) t
  | rejected {k : Nat} {t : Simulation} : Steps k s t → t.status = .running →
      t.stepCount < s.stepCount + n → t.current.state.transitionFor? t.head.read = none →
      EndsWithin s n (.ok .rejected) { t with status := .rejected }
  | failed {k : Nat} {t u : Simulation} {e : SimulationError} : Steps k s t → k < n →
      t.step = (.error e, u) → EndsWithin s n (.error e) u
  | running {t : Simulation} : Steps n s t → t.status = .running →
      t.stepCount = s.stepCount + n → EndsWithin s n (.ok .running) t

theorem EndsWithin.of_step {result : Except SimulationError Status} {outcome : Outcome}
    (hstep : s.step = (.ok outcome, u)) (hcount : u.stepCount = s.stepCount + 1)
    (h : u.EndsWithin n result t) : s.EndsWithin (n + 1) result t := by
  have hfirst : ∀ {k : Nat} {v : Simulation}, Steps k u v → Steps (k + 1) s v :=
    fun hsteps => ⟨outcome, u, hstep, hsteps⟩
  cases h with
  | accepted hsteps ht hle => exact .accepted (hfirst hsteps) ht (by omega)
  | rejected hsteps ht hlt hnone => exact .rejected (hfirst hsteps) ht (by omega) hnone
  | failed hsteps hlt herror => exact .failed (hfirst hsteps) (by omega) herror
  | running hsteps ht heq => exact .running (hfirst hsteps) ht (by omega)

theorem endsWithin_runFor (hs : s.status ≠ .rejected) (n : Nat) :
    s.EndsWithin n (s.runFor n).1 (s.runFor n).2 := by
  induction n generalizing s with
  | zero =>
    cases hstatus : s.status with
    | running => simpa [hstatus] using EndsWithin.running (n := 0) (s := s) rfl hstatus rfl
    | accepted =>
      simpa [hstatus] using EndsWithin.accepted (n := 0) (k := 0) (s := s) rfl hstatus (by omega)
    | rejected => exact absurd hstatus hs
  | succ n ih =>
    by_cases hrunning : s.status = .running
    · rcases hstep : s.step with ⟨e | outcome, t⟩
      · rw [runFor_succ_of_error hstep]
        exact .failed (k := 0) rfl (Nat.succ_pos n) hstep
      · rw [runFor_succ_of_ok hstep]
        obtain ⟨-, ht, hcount⟩ | ⟨-, ht, hcount⟩ | ⟨-, hnone, rfl⟩ :=
          step_ok_of_running hrunning hstep
        · exact (ih (by simp [ht])).of_step hstep hcount
        · exact (ih (by simp [ht])).of_step hstep hcount
        · have hterminal : ({ s with status := .rejected } : Simulation).status ≠ .running := by simp
          rw [runFor_of_terminal hterminal]
          exact .rejected (k := 0) rfl hrunning (by omega) hnone
    · have hstatus : s.status = .accepted := by
        cases hcases : s.status with
        | running => exact absurd hcases hrunning
        | accepted => rfl
        | rejected => exact absurd hcases hs
      rw [runFor_of_terminal hrunning, hstatus]
      exact .accepted (k := 0) rfl hstatus (Nat.le_add_right _ _)

theorem EndsWithin.runFor_eq {result : Except SimulationError Status}
    (h : s.EndsWithin n result t) : s.runFor n = (result, t) := by
  cases h with
  | @accepted k _ hsteps ht hle =>
    have hterminal : t.status ≠ .running := by simp [ht]
    by_cases hs : s.status = .running
    · obtain ⟨j, u, outcome, hbefore, hu, hlast⟩ := hsteps.exists_last hs hterminal
      have hcount := hbefore.stepCount_eq hu
      have hlt : j < n := by
        obtain ⟨-, hrun, -⟩ | ⟨-, -, hnext⟩ | ⟨-, -, hrejected⟩ := step_ok_of_running hu hlast
        · exact absurd hrun hterminal
        · omega
        · simp [hrejected] at ht
      obtain ⟨m, rfl⟩ : ∃ m, n = j + (m + 1) := ⟨n - j - 1, by omega⟩
      rw [hbefore.runFor_add, runFor_succ_of_ok hlast, runFor_of_terminal hterminal, ht]
    · have hts := hsteps.eq_of_terminal hs
      rw [hts] at ht ⊢
      rw [runFor_of_terminal hs, ht]
  | @rejected k t hsteps ht hlt hnone =>
    have hcount := hsteps.stepCount_eq ht
    obtain ⟨m, rfl⟩ : ∃ m, n = k + (m + 1) := ⟨n - k - 1, by omega⟩
    have hreject := step_of_no_transition (Status.isTerminal_eq_false_iff.mpr ht) hnone
    have hterminal : ({ t with status := .rejected } : Simulation).status ≠ .running := by simp
    rw [hsteps.runFor_add, runFor_succ_of_ok hreject, runFor_of_terminal hterminal]
  | @failed k t u e hsteps hlt herror =>
    obtain ⟨m, rfl⟩ : ∃ m, n = k + (m + 1) := ⟨n - k - 1, by omega⟩
    rw [hsteps.runFor_add, runFor_succ_of_error herror]
  | running hsteps ht heq =>
    have hrun := hsteps.runFor_add 0
    rwa [Nat.add_zero, runFor_zero, ht] at hrun

section Results

variable (hs : s.status ≠ .rejected)

include hs

theorem runFor_eq_accepted_iff : (s.runFor n).1 = .ok .accepted ↔
    ∃ k u, Steps k s u ∧ u.stepCount ≤ s.stepCount + n ∧ u.status = .accepted := by
  constructor
  · intro h
    have hends := endsWithin_runFor hs n
    rw [h] at hends
    generalize (s.runFor n).2 = t at hends
    cases hends with
    | accepted hsteps ht hle => exact ⟨_, t, hsteps, hle, ht⟩
  · rintro ⟨k, u, hsteps, hle, hu⟩
    rw [(EndsWithin.accepted hsteps hu hle).runFor_eq]

theorem runFor_eq_rejected_iff : (s.runFor n).1 = .ok .rejected ↔
    ∃ k u, Steps k s u ∧ u.stepCount < s.stepCount + n ∧ u.status = .running ∧
      u.current.state.transitionFor? u.head.read = none := by
  constructor
  · intro h
    have hends := endsWithin_runFor hs n
    rw [h] at hends
    generalize (s.runFor n).2 = t at hends
    cases hends with
    | rejected hsteps ht hlt hnone => exact ⟨_, _, hsteps, hlt, ht, hnone⟩
  · rintro ⟨k, u, hsteps, hlt, hu, hnone⟩
    rw [(EndsWithin.rejected hsteps hu hlt hnone).runFor_eq]

theorem runFor_eq_error_iff : (∃ e, (s.runFor n).1 = .error e) ↔
    ∃ k u e v, Steps k s u ∧ k < n ∧ u.step = (.error e, v) := by
  constructor
  · rintro ⟨e, h⟩
    have hends := endsWithin_runFor hs n
    rw [h] at hends
    generalize (s.runFor n).2 = t at hends
    cases hends with
    | failed hsteps hlt herror => exact ⟨_, _, e, t, hsteps, hlt, herror⟩
  · rintro ⟨k, u, e, v, hsteps, hlt, herror⟩
    rw [(EndsWithin.failed hsteps hlt herror).runFor_eq]
    exact ⟨e, rfl⟩

end Results

/-! ## On the way -/

/-- The simulations after each of the first `n` steps, for as long as the run goes on. -/
def passed (s : Simulation) : Nat → List Simulation
  | 0 => []
  | n + 1 =>
    match s.step with
    | (.ok .proceeds, t) => t :: t.passed n
    | _ => []

theorem passed_succ_of_proceeds (h : s.step = (.ok .proceeds, t)) (n : Nat) :
    s.passed (n + 1) = t :: t.passed n := by
  simp only [passed, h]

theorem passed_succ_of_halts {status : Status} (h : s.step = (.ok (.halts status), t)) (n : Nat) :
    s.passed (n + 1) = [] := by
  simp only [passed, h]

theorem passed_succ_of_error {e : SimulationError} (h : s.step = (.error e, t)) (n : Nat) :
    s.passed (n + 1) = [] := by
  simp only [passed, h]

/-- A step halts where it leaves a simulation that runs no more. -/
theorem not_running_of_halts {status : Status} (h : s.step = (.ok (.halts status), t)) :
    t.status ≠ .running := by
  by_cases hs : s.status = .running
  · obtain ⟨hproceeds, -⟩ | ⟨-, ht, -⟩ | ⟨-, -, ht⟩ := step_ok_of_running hs h
    · cases hproceeds
    · simp [ht]
    · simp [ht]
  · rw [step_of_isTerminal (Status.isTerminal_eq_true_iff.mpr hs)] at h
    cases h
    exact hs

theorem running_of_proceeds (h : s.step = (.ok .proceeds, t)) : t.status = .running := by
  obtain ⟨-, hhalts, -⟩ | ⟨-, -, hhalts, -⟩ | ⟨hs, -⟩ := step_ok_cases h
  · cases hhalts
  · cases hhalts
  · obtain ⟨-, ht, -⟩ | ⟨hhalts, -⟩ | ⟨hhalts, -⟩ := step_ok_of_running hs h
    · exact ht
    · cases hhalts
    · cases hhalts

/-- What a bounded run passes is what steps lead to that is still running. -/
theorem getElem?_passed :
    (s.passed n)[k]? = some t ↔ k < n ∧ Steps (k + 1) s t ∧ t.status = .running := by
  induction n generalizing s k with
  | zero => simp [passed]
  | succ n ih =>
    rcases hstep : s.step with ⟨e | outcome, u⟩
    · rw [passed_succ_of_error hstep]
      simp [Steps, hstep]
    · cases outcome with
      | halts status =>
        rw [passed_succ_of_halts hstep]
        have hnone : ¬ (Steps (k + 1) s t ∧ t.status = .running) := by
          rintro ⟨hsteps, ht⟩
          have hrest := (Steps.succ_iff hstep).mp hsteps
          exact not_running_of_halts hstep (hrest.running_of_running ht)
        simp [hnone]
      | proceeds =>
        rw [passed_succ_of_proceeds hstep]
        rw [Steps.succ_iff hstep]
        cases k with
        | zero =>
          have hu := running_of_proceeds hstep
          constructor
          · rintro ⟨⟩
            exact ⟨Nat.succ_pos n, rfl, hu⟩
          · rintro ⟨-, hut, -⟩
            exact congrArg some hut
        | succ k => simp [ih]

/-- A run that has ended passes nothing more, however high its bound. -/
theorem getElem?_passed_of_ended (h : (s.runFor n).1 ≠ .ok .running) :
    (s.passed n)[k]? = some t ↔ Steps (k + 1) s t ∧ t.status = .running := by
  rw [getElem?_passed]
  refine and_iff_right_of_imp fun ⟨hsteps, ht⟩ => Nat.lt_of_not_le fun hk => ?_
  obtain ⟨u, hu, hrest⟩ := hsteps.exists_of_le (Nat.le_succ_of_le hk)
  have hrun := hu.runFor_add 0
  rw [Nat.add_zero, runFor_zero, hrest.running_of_running ht] at hrun
  exact h (congrArg Prod.fst hrun)

/-! ## Runs without a bound -/

theorem RunsTo.exists_runFor {status : Status} (h : RunsTo s status t) :
    ∃ enough, ∀ n ≥ enough, s.runFor n = (.ok status, t) := by
  induction h with
  | halted hterminal =>
    exact ⟨0, fun n _ => runFor_of_terminal (Status.isTerminal_eq_true_iff.mp hterminal) n⟩
  | step _ hstep _ ih =>
    obtain ⟨enough, henough⟩ := ih
    refine ⟨enough + 1, fun n hn => ?_⟩
    obtain ⟨m, rfl⟩ : ∃ m, n = m + 1 := ⟨n - 1, by omega⟩
    rw [runFor_succ_of_ok hstep]
    exact henough m (by omega)

theorem RunsTo.isTerminal {status : Status} (h : RunsTo s status t) : status ≠ .running := by
  induction h with
  | halted hterminal => exact Status.isTerminal_eq_true_iff.mp hterminal
  | step _ _ _ ih => exact ih

end Simulation

end HierarchicalTuring
