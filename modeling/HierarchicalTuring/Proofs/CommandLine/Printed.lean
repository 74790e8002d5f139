import HierarchicalTuring.CommandLine.Run
import HierarchicalTuring.Proofs.Simulation.Bounded

/-! # What a run prints

A run prints how it ended and what is on the tape, or the message of an error. Before this stands a
line for every simulation it has passed, if it shows its steps.

* `stepsText` and `endingText`: the lines of the steps, and the two lines of the end.
* `stepThrough_eq`: the command line steps a simulation in two ways. A run that shows its steps
  compares the transitions taken with the budget before each step, and a plain one counts the steps.
  Both ways lead to the same result and the same simulation.
* `Shows o s shown`: the simulations a run has a line for, said by the steps that lead to them.
* `Report.Tells`: the report of a result, with every text written out. `tells_report` is about the
  report that is made. The exit code and the outcome tell the result apart.
* `Report.behind`: a report with the lines of steps before its output, and lines before its messages.
-/

set_option autoImplicit false

namespace HierarchicalTuring

namespace CommandLine

open Simulation (Steps)

/-! ## Texts -/

/-- The line that shows a simulation. -/
def stepLine (s : Simulation) : String :=
  "Step: " ++ toString s.stepCount ++
    ", Frames: " ++ " > ".intercalate (s.frames.map fun f => f.machine.name ++ "/" ++ f.state.name) ++
    ", Head: " ++ toString s.head.position ++
    ", Tape: [" ++ s.head.tape.contents ++ "]\n"

/-- The lines that show simulations. -/
def stepsText (shown : List Simulation) : String :=
  String.join (shown.map stepLine)

/-- The lines for the end of a run: how it ended, after how many transitions and where, and what is on
the tape. -/
def endingText (outcome : String) (t : Simulation) : String :=
  outcome ++ " after " ++ toString t.stepCount ++ " steps in " ++
    t.current.machine.name ++ "/" ++ t.current.state.name ++ "\n" ++ t.head.tape.contents ++ "\n"

theorem lines_append (texts others : List String) :
    lines (texts ++ others) = lines texts ++ lines others := by
  unfold lines
  rw [List.map_append, String.join_append]

theorem lines_traceLine (shown : List Simulation) :
    lines (shown.map traceLine) = stepsText shown := by
  have hline : ∀ s, traceLine s ++ "\n" = stepLine s := by
    intro s
    unfold traceLine stepLine
    rw [String.append_assoc]
    rfl
  unfold lines stepsText
  rw [List.map_map]
  exact congrArg String.join (List.map_congr_left fun s _ => hline s)

theorem lines_ending (status : Status) (t : Simulation) :
    lines [outcomeLine status t, t.head.tape.contents] = endingText (outcomeText status) t := by
  simp [lines, outcomeLine, frameText, endingText, String.append_assoc]

theorem endingText_inj {outcome other : String} {t : Simulation} :
    endingText outcome t = endingText other t ↔ outcome = other := by
  simp [endingText, String.append_assoc]

/-! ## Stepping with a trace -/

theorem trace_of_lt {limit : Nat} {s : Simulation} (h : s.stepCount < limit)
    (before : List String) :
    trace limit before s =
      match s.step with
      | (.error e, t) => ⟨before.reverse, .error e, t⟩
      | (.ok (.halts status), t) => ⟨before.reverse, .ok status, t⟩
      | (.ok .proceeds, t) => trace limit (traceLine t :: before) t := by
  rw [trace, if_neg (Nat.not_le_of_lt h)]
  split
  · next heq => simp only [heq]
  · next heq => simp only [heq]
  · next heq => simp only [heq]

/-- A trace puts a line for every simulation it passes after those it is given, and ends as a run of so
many steps. -/
theorem trace_eq (n : Nat) (before : List String) (s : Simulation) :
    trace (s.stepCount + n) before s =
      ⟨before.reverse ++ (s.passed n).map traceLine, (s.runFor n).1, (s.runFor n).2⟩ := by
  induction n generalizing before s with
  | zero =>
    rw [trace, if_pos (by omega)]
    simp [Simulation.passed]
  | succ n ih =>
    rw [trace_of_lt (by omega)]
    unfold Simulation.runFor Simulation.passed
    rcases hstep : s.step with ⟨e | outcome, t⟩
    · simp
    · cases outcome with
      | halts status => simp
      | proceeds =>
        have hlimit : s.stepCount + (n + 1) = t.stepCount + n := by
          have hcount := Simulation.stepCount_of_proceeds hstep
          omega
        simp only [hlimit, ih]
        simp

/-- The simulations that a run of `n` steps at most has a line for. -/
def shownBy (o : Options) (s : Simulation) (n : Nat) : List Simulation :=
  if o.debug then s :: s.passed n else []

/-- Stepping ends as a bounded run does, whether or not the steps are shown. -/
theorem stepThrough_eq (o : Options) {s : Simulation} (hs : s.stepCount = 0) (n : Nat) :
    stepThrough o s n = ⟨(shownBy o s n).map traceLine, (s.runFor n).1, (s.runFor n).2⟩ := by
  unfold stepThrough shownBy
  cases o.debug with
  | false => rfl
  | true =>
    have htrace := trace_eq n [traceLine s] s
    rw [hs, Nat.zero_add] at htrace
    simpa using htrace

/-! ## The steps that are shown -/

/-- A run that shows its steps has a line for where it starts, and for where each step leads that is
within the budget and after which the run goes on. -/
structure Shows (o : Options) (s : Simulation) (shown : List Simulation) : Prop where
  eq_nil : o.debug = false → shown = []
  getElem?_iff : o.debug = true → ∀ k u, shown[k]? = some u ↔
    (∀ n, o.maxSteps = some n → k ≤ n) ∧ Steps k s u ∧ (k = 0 ∨ u.status = .running)

theorem Shows.unique {o : Options} {s : Simulation} {shown others : List Simulation}
    (h : Shows o s shown) (h' : Shows o s others) : shown = others := by
  cases hdebug : o.debug with
  | false => rw [h.eq_nil hdebug, h'.eq_nil hdebug]
  | true =>
    refine List.ext_getElem? fun k => Option.ext fun u => ?_
    rw [h.getElem?_iff hdebug, h'.getElem?_iff hdebug]

theorem shows_shownBy {o : Options} {s : Simulation} {n : Nat}
    (h : ∀ k u, (s.passed n)[k]? = some u ↔
      (∀ bound, o.maxSteps = some bound → k + 1 ≤ bound) ∧
        Steps (k + 1) s u ∧ u.status = .running) :
    Shows o s (shownBy o s n) := by
  refine ⟨fun hdebug => by simp [shownBy, hdebug], fun hdebug k u => ?_⟩
  simp only [shownBy, hdebug, if_true]
  cases k with
  | zero => simp [Steps]
  | succ k => simpa using h k u

theorem shows_shownBy_of_budget {o : Options} {n : Nat} (hmax : o.maxSteps = some n)
    (s : Simulation) : Shows o s (shownBy o s n) := by
  refine shows_shownBy fun k u => ?_
  have hbound : (∀ bound, o.maxSteps = some bound → k + 1 ≤ bound) ↔ k < n := by
    constructor
    · exact fun h => h n hmax
    · intro hk bound hbound
      cases hmax.symm.trans hbound
      exact hk
  rw [Simulation.getElem?_passed, hbound]

theorem shows_shownBy_of_ended {o : Options} {s : Simulation} {n : Nat} (hmax : o.maxSteps = none)
    (hended : (s.runFor n).1 ≠ .ok .running) : Shows o s (shownBy o s n) :=
  shows_shownBy fun k u => by simp [Simulation.getElem?_passed_of_ended hended, hmax]

/-! ## Reports -/

/-- What is reported of a result and the simulation it comes with, behind the lines of the steps and
earlier messages. -/
inductive Report.Tells (shown : List Simulation) (ws : List String) (t : Simulation) :
    Except SimulationError Status → Report → Prop
  | accepted : Tells shown ws t (.ok .accepted)
      ⟨0, stepsText shown ++ endingText "accepted" t, ws⟩
  | rejected : Tells shown ws t (.ok .rejected)
      ⟨1, stepsText shown ++ endingText "rejected" t, ws⟩
  | running : Tells shown ws t (.ok .running)
      ⟨1, stepsText shown ++ endingText "step limit reached" t, ws⟩
  | failed (e : SimulationError) : Tells shown ws t (.error e)
      ⟨2, stepsText shown, ws ++ ["Error: " ++ e.message]⟩

theorem tells_report (shown : List Simulation) (ws : List String)
    (result : Except SimulationError Status) (t : Simulation) :
    (report ws ⟨shown.map traceLine, result, t⟩).Tells shown ws t result := by
  rcases result with e | status
  · simp only [report, lines_traceLine]
    exact .failed e
  · simp only [report, lines_append, lines_traceLine, lines_ending]
    cases status with
    | running => exact .running
    | accepted => exact .accepted
    | rejected => exact .rejected

section Tells

variable {r : Report} {shown : List Simulation} {ws : List String} {t : Simulation}
  {result : Except SimulationError Status} (h : r.Tells shown ws t result)

include h

theorem Report.Tells.exitCode_eq_zero_iff : r.exitCode = 0 ↔ result = .ok .accepted := by
  cases h <;> simp

theorem Report.Tells.exitCode_eq_two_iff : r.exitCode = 2 ↔ ∃ e, result = .error e := by
  cases h <;> simp

/-- Rejections and runs out of budget have the same exit code, and their outcomes differ. -/
theorem Report.Tells.rejected_iff :
    r.exitCode = 1 ∧ r.output = stepsText shown ++ endingText "rejected" t ↔
      result = .ok .rejected := by
  cases h <;> simp [endingText_inj]

theorem Report.Tells.running_iff :
    r.exitCode = 1 ∧ r.output = stepsText shown ++ endingText "step limit reached" t ↔
      result = .ok .running := by
  cases h <;> simp [endingText_inj]

end Tells

/-- The report with the lines of steps before its output, and lines before its messages. -/
def Report.behind (shown : List Simulation) (ws : List String) (r : Report) : Report :=
  ⟨r.exitCode, stepsText shown ++ r.output, ws ++ r.messages⟩

theorem report_eq_behind (ws : List String) (shown : List Simulation)
    (result : Except SimulationError Status) (t : Simulation) :
    report ws ⟨shown.map traceLine, result, t⟩ = (report [] ⟨[], result, t⟩).behind shown ws := by
  cases result with
  | error e => simp [report, Report.behind, lines, ← lines_traceLine]
  | ok status => simp [report, Report.behind, lines_append, lines_traceLine]

theorem behind_nil (r : Report) : r.behind [] [] = r := by
  simp [Report.behind, stepsText]

end CommandLine

end HierarchicalTuring
