import HierarchicalTuring.Proofs.CommandLine.Printed
import HierarchicalTuring.Proofs.Document.Json
import HierarchicalTuring.Proofs.Result
import HierarchicalTuring.Proofs.Simulation.Resuming

/-! # What a run of the command line comes to

* `simulate_eq`: what is reported of a simulation, with a budget and without.
* `run_behind`: showing steps and checking the project put lines before the output and before the
  messages, and change nothing else.
* `run_of_start`: the report of a simulation that starts.
* `budget_decides_outcome`: all of this for the whole command line, with the texts that are printed,
  and what the budget has to do with the outcome.
-/

set_option autoImplicit false

namespace HierarchicalTuring

namespace CommandLine

open Simulation (Steps RunsTo)

/-! ## Reports of simulations -/

/-- What is reported of a bounded run. Without a budget nothing is, while the run goes on. -/
def reported (patience : Nat) (o : Options) (ws : List String) (shown : List Simulation)
    (s : Simulation) : Option Report :=
  let (result, t) := s.runFor (o.maxSteps.getD patience)
  match o.maxSteps, result with
  | none, .ok .running => none
  | _, _ => some (report ws ⟨shown.map traceLine, result, t⟩)

theorem simulate_eq (patience : Nat) (o : Options) (ws : List String) {s : Simulation}
    (hs : s.stepCount = 0) :
    simulate patience o ws s =
      reported patience o ws (shownBy o s (o.maxSteps.getD patience)) s := by
  have hstep := stepThrough_eq o hs (o.maxSteps.getD patience)
  unfold simulate reported
  cases hmax : o.maxSteps with
  | some bound =>
    simp only [hmax, Option.getD_some] at hstep ⊢
    rw [hstep]
  | none =>
    simp only [hmax, Option.getD_none] at hstep ⊢
    rw [hstep]
    rcases s.runFor patience with ⟨e | status, t⟩
    · rfl
    · cases status <;> rfl

theorem reported_eq_behind (patience : Nat) (o : Options) (ws : List String)
    (shown : List Simulation) (s : Simulation) :
    reported patience o ws shown s =
      (reported patience o [] [] s).map (Report.behind shown ws) := by
  unfold reported
  dsimp only
  split
  · rfl
  · rw [Option.map_some, report_eq_behind]
    rfl

theorem reported_of_budget {o : Options} {n : Nat} (hmax : o.maxSteps = some n) (patience : Nat)
    (ws : List String) (shown : List Simulation) (s : Simulation) :
    reported patience o ws shown s =
      some (report ws ⟨shown.map traceLine, (s.runFor n).1, (s.runFor n).2⟩) := by
  simp [reported, hmax]

theorem reported_of_running {o : Options} (hmax : o.maxSteps = none) {patience : Nat}
    {s : Simulation} (h : (s.runFor patience).1 = .ok .running) (ws : List String)
    (shown : List Simulation) : reported patience o ws shown s = none := by
  simp [reported, hmax, h]

theorem reported_of_ended {o : Options} (hmax : o.maxSteps = none) {patience : Nat}
    {s t : Simulation} {result : Except SimulationError Status}
    (h : s.runFor patience = (result, t)) (hended : result ≠ .ok .running) (ws : List String)
    (shown : List Simulation) :
    reported patience o ws shown s = some (report ws ⟨shown.map traceLine, result, t⟩) := by
  simp only [reported, hmax, Option.getD_none, h]
  split
  · exact absurd rfl hended
  · rfl

theorem begin_eq_ok_iff {o : Options} {w : Surroundings} {task : Task} {s : Simulation} :
    begin o w task = .ok s ↔ ∃ input, tapeText o w task.input = .ok input ∧
      Simulation.start task.project (o.machine.getD task.machine) (Tape.ofText input o.blank) =
        .ok s := by
  unfold begin
  rw [bind_eq_ok_iff]
  refine exists_congr fun input => and_congr_right fun _ => ?_
  cases Simulation.start task.project (o.machine.getD task.machine)
    (Tape.ofText input o.blank) with
  | error e => simp [Except.mapError]
  | ok s => simp [Except.mapError]

theorem warnings_of_check {o : Options} (h : o.check = true) (p : Project) :
    warnings o p = p.analyze.map fun issue => "warning: " ++ issue.toError.message := by
  rw [warnings, if_pos h]

theorem exists_issue_of_mem_warnings {o : Options} {p : Project} {line : String}
    (h : line ∈ warnings o p) : ∃ issue : Issue, line = "warning: " ++ issue.toError.message := by
  unfold warnings at h
  split at h
  · obtain ⟨issue, -, rfl⟩ := List.mem_map.mp h
    exact ⟨issue, rfl⟩
  · cases h

/-- Showing steps and checking the project put lines before the output and before the messages, and
nothing else changes. -/
theorem run_behind (patience : Nat) (o : Options) (w : Surroundings) (debug check : Bool) :
    ∃ shown ws, run patience { o with debug, check } w =
        (run patience { o with debug := false, check := false } w).map
          (Report.behind shown ws) ∧
      (debug = false → shown = []) ∧ (check = false → ws = []) ∧
      (∀ line ∈ ws, ∃ issue : Issue, line = "warning: " ++ issue.toError.message) ∧
      (check = true → o.list = false → ∀ task, load o w = .ok task →
        ws = task.project.analyze.map fun issue => "warning: " ++ issue.toError.message) := by
  have hload : ∀ d c, load { o with debug := d, check := c } w = load o w := fun _ _ => rfl
  have hbegin : ∀ d c task, begin { o with debug := d, check := c } w task = begin o w task :=
    fun _ _ _ => rfl
  unfold run
  simp only [hload, hbegin]
  split
  · next hlist => exact ⟨[], [], by simp [behind_nil], by simp, by simp, by simp, by simp [hlist]⟩
  cases load o w with
  | error e => exact ⟨[], [], by simp [behind_nil], by simp, by simp, by simp, by simp⟩
  | ok task =>
    have hnone : warnings { o with debug := false, check := false } task.project = [] := rfl
    have hunchecked : check = false → warnings { o with debug, check } task.project = [] := by
      rintro rfl
      rfl
    have hwarnings : ∀ line ∈ warnings { o with debug, check } task.project,
        ∃ issue : Issue, line = "warning: " ++ issue.toError.message :=
      fun line hline => exists_issue_of_mem_warnings hline
    have hchecked : check = true → o.list = false →
        ∀ loaded, (.ok task : Except Error Task) = .ok loaded →
          warnings { o with debug, check } task.project =
            loaded.project.analyze.map fun issue => "warning: " ++ issue.toError.message := by
      rintro hcheck - _ ⟨⟩
      exact warnings_of_check hcheck task.project
    simp only [hnone]
    generalize warnings { o with debug, check } task.project = ws at hunchecked hwarnings hchecked ⊢
    cases hstart : begin o w task with
    | error e =>
      exact ⟨[], ws, by simp [Report.behind, stepsText], fun _ => rfl, hunchecked, hwarnings,
        hchecked⟩
    | ok s =>
      obtain ⟨input, -, hsimulation⟩ := begin_eq_ok_iff.mp hstart
      have hs := (Simulation.fields_of_start hsimulation).2.1
      refine ⟨shownBy { o with debug, check } s (o.maxSteps.getD patience), ws, ?_, ?_,
        hunchecked, hwarnings, hchecked⟩
      · dsimp only
        rw [simulate_eq _ _ _ hs, simulate_eq _ _ _ hs, reported_eq_behind]
        rfl
      · rintro rfl
        rfl

/-! ## A run and its budget -/

section Started

variable {o : Options} {w : Surroundings} {task : Task} {input : String}
  (hlist : o.list = false) (hload : load o w = .ok task)
  (htape : tapeText o w task.input = .ok input)

include hlist hload htape

theorem run_of_start_error {e : SimulationError} (hstart : Simulation.start task.project
      (o.machine.getD task.machine) (Tape.ofText input o.blank) = .error e) (patience : Nat) :
    run patience o w =
      some ⟨2, "", warnings o task.project ++ ["Error: " ++ e.message]⟩ := by
  have hbegin : begin o w task = .error (.simulation e) := by
    simp [begin, htape, hstart, bind, Except.bind, Except.mapError]
  have hmessage : errorMessage e = "Error: " ++ e.message := rfl
  simp [run, hlist, hload, hbegin, ← hmessage]

variable {s : Simulation} (hstart : Simulation.start task.project
      (o.machine.getD task.machine) (Tape.ofText input o.blank) = .ok s)

include hstart

theorem run_of_start (patience : Nat) :
    run patience o w = reported patience o (warnings o task.project)
      (shownBy o s (o.maxSteps.getD patience)) s := by
  have hbegin : begin o w task = .ok s := begin_eq_ok_iff.mpr ⟨input, htape, hstart⟩
  simp only [run, hlist, hload, hbegin]
  exact simulate_eq patience o _ (Simulation.fields_of_start hstart).2.1

/-- A run with a budget is reported whatever the patience. -/
theorem run_of_budget {n : Nat} {t : Simulation} {result : Except SimulationError Status}
    (hmax : o.maxSteps = some n) (hrun : s.runFor n = (result, t)) :
    ∃ shown r, Shows o s shown ∧ r.Tells shown (warnings o task.project) t result ∧
      ∀ patience, run patience o w = some r := by
  refine ⟨shownBy o s n, _, shows_shownBy_of_budget hmax s, tells_report _ _ _ _,
    fun patience => ?_⟩
  rw [run_of_start hlist hload htape hstart, hmax, Option.getD_some, reported_of_budget hmax, hrun]

/-- A run without a budget is reported as it ends, given enough patience. -/
theorem run_of_ended {enough : Nat} {t : Simulation} {result : Except SimulationError Status}
    (hmax : o.maxSteps = none) (hends : ∀ n ≥ enough, s.runFor n = (result, t))
    (hended : result ≠ .ok .running) :
    ∃ shown r, Shows o s shown ∧ r.Tells shown (warnings o task.project) t result ∧
      ∀ patience ≥ enough, run patience o w = some r := by
  have hshows : ∀ n ≥ enough, Shows o s (shownBy o s n) := fun n hn =>
    shows_shownBy_of_ended hmax (by rwa [hends n hn])
  refine ⟨shownBy o s enough, _, hshows enough (Nat.le_refl _), tells_report _ _ _ _,
    fun patience hpatience => ?_⟩
  rw [run_of_start hlist hload htape hstart, hmax, Option.getD_none,
    (hshows patience hpatience).unique (hshows enough (Nat.le_refl _))]
  exact reported_of_ended hmax (hends patience hpatience) hended _ _

end Started

/-- Showing the steps of a run and checking its project change nothing of what it comes to, and put
lines before the output and before the messages only. A simulation that cannot be started is an error
with no output. Otherwise what is reported is the end of the run: the outcome, the transitions taken,
the machine and state and the tape, or the message of its error, behind a line for every step that is
shown. A run without a budget is reported once it halts or fails. With a budget of `n` a run is
accepted if that takes `n` transitions at most, rejected if fewer than `n` transitions lead to where
none fits, and an error if one of the first `n` steps fails. Otherwise `n` transitions are taken and
the budget is used up. -/
theorem budget_decides_outcome (o : Options) (w : Surroundings) :
    (∀ patience debug check, ∃ shown ws, run patience { o with debug, check } w =
        (run patience { o with debug := false, check := false } w).map
          (Report.behind shown ws) ∧
      (debug = false → shown = []) ∧ (check = false → ws = []) ∧
      (∀ line ∈ ws, ∃ issue : Issue, line = "warning: " ++ issue.toError.message) ∧
      (check = true → o.list = false → ∀ task, load o w = .ok task →
        ws = task.project.analyze.map fun issue => "warning: " ++ issue.toError.message)) ∧
    ∀ task input, o.list = false → load o w = .ok task →
      tapeText o w task.input = .ok input →
      (∀ e, Simulation.start task.project (o.machine.getD task.machine)
          (Tape.ofText input o.blank) = .error e →
        ∀ patience, run patience o w =
          some ⟨2, "", warnings o task.project ++ ["Error: " ++ e.message]⟩) ∧
      ∀ s, Simulation.start task.project (o.machine.getD task.machine)
          (Tape.ofText input o.blank) = .ok s →
        (o.maxSteps = none →
          (∀ patience, (s.runFor patience).1 = .ok .running → run patience o w = none) ∧
          (∀ status t, RunsTo s status t → ∃ enough shown r, Shows o s shown ∧
            r.Tells shown (warnings o task.project) t (.ok status) ∧
            ∀ patience ≥ enough, run patience o w = some r) ∧
          ∀ k u e v, Steps k s u → u.step = (.error e, v) → ∃ enough shown r, Shows o s shown ∧
            r.Tells shown (warnings o task.project) v (.error e) ∧
            ∀ patience ≥ enough, run patience o w = some r) ∧
        ∀ n result t, o.maxSteps = some n → s.runFor n = (result, t) →
          ∃ shown r, Shows o s shown ∧ r.Tells shown (warnings o task.project) t result ∧
          (∀ patience, run patience o w = some r) ∧
          (r.exitCode = 0 ↔ ∃ k u, Steps k s u ∧ u.stepCount ≤ n ∧ u.status = .accepted) ∧
          (r.exitCode = 1 ∧ r.output = stepsText shown ++ endingText "rejected" t ↔
            ∃ k u, Steps k s u ∧ u.stepCount < n ∧ u.status = .running ∧
              u.current.state.transitionFor? u.head.read = none) ∧
          (r.exitCode = 2 ↔ ∃ k u e v, Steps k s u ∧ k < n ∧ u.step = (.error e, v)) ∧
          (r.exitCode = 1 ∧ r.output = stepsText shown ++ endingText "step limit reached" t ↔
            Steps n s t ∧ t.status = .running ∧ t.stepCount = n) := by
  refine ⟨fun patience debug check => run_behind patience o w debug check, ?_⟩
  intro task input hlist hload htape
  refine ⟨fun e => run_of_start_error hlist hload htape, fun s hstart => ⟨?_, ?_⟩⟩
  · intro hmax
    refine ⟨fun patience hrunning => ?_, fun status t hruns => ?_, fun k u e v hsteps herror => ?_⟩
    · rw [run_of_start hlist hload htape hstart]
      exact reported_of_running hmax hrunning _ _
    · obtain ⟨enough, henough⟩ := hruns.exists_runFor
      exact ⟨enough, run_of_ended hlist hload htape hstart hmax henough
        (by simpa using hruns.isTerminal)⟩
    · have hfailed : ∀ n ≥ k + 1, s.runFor n = (.error e, v) := fun n hn =>
        Simulation.runFor_eq_error_iff_exists_step.mpr ⟨k, hn, u, hsteps, herror⟩
      exact ⟨k + 1, run_of_ended hlist hload htape hstart hmax hfailed (by simp)⟩
  · intro n result t hmax hrun
    obtain ⟨-, hcount, hstatus⟩ := Simulation.fields_of_start hstart
    have haccepted := Simulation.runFor_eq_accepted_iff hstatus (n := n)
    have hrejected := Simulation.runFor_eq_rejected_iff hstatus (n := n)
    have hfailed := Simulation.runFor_eq_error_iff hstatus (n := n)
    have hrunning := Simulation.runFor_eq_running_iff (s := s) (t := t) (n := n)
    rw [hrun] at haccepted hrejected hfailed hrunning
    rw [hcount, Nat.zero_add] at haccepted hrejected hrunning
    rw [Prod.mk.injEq, and_iff_left rfl] at hrunning
    obtain ⟨shown, r, hshows, htells, hreport⟩ :=
      run_of_budget hlist hload htape hstart hmax hrun
    refine ⟨shown, r, hshows, htells, hreport, ?_⟩
    rw [htells.exitCode_eq_zero_iff, htells.rejected_iff, htells.exitCode_eq_two_iff,
      htells.running_iff]
    exact ⟨haccepted, hrejected, hfailed, hrunning⟩

/-! ## A project in one file -/

/-- A machine with one state, which reads ones forever. -/
def sampleText : String :=
  "\x7b\"states\": \x7b\"start\": \x7b\"x\": 0, \"y\": 0, \"accepting\": false, \"transitions\": [
    \x7b\"destination\": \"start\", \"inchar\": \"1\", \"move\": \"R\"\x7d]\x7d\x7d\x7d"

/-- The file of the machine, alone in a directory, with a terminal as the standard input. -/
def sampleSurroundings : Surroundings :=
  ⟨fun _ => .ok ⟨[(bytesOf ("main" ++ machineEnding), .file (bytesOf sampleText))]⟩, none⟩

/-- A run on two ones that shows its steps. -/
def sampleOptions (machine : Option String) (budget : Option Nat) : Options :=
  ⟨some "p", none, machine, some "11", '_', budget, true, false, false⟩

/-- The lines of its steps. -/
def sampleSteps : String :=
  "Step: 0, Frames: main/start, Head: 0, Tape: [11]\n" ++
  "Step: 1, Frames: main/start, Head: 1, Tape: [11]\n" ++
  "Step: 2, Frames: main/start, Head: 2, Tape: [11]\n"

/-- The lines for its end, with a budget of two and with a greater one. -/
def sampleLimit : String :=
  "step limit reached after 2 steps in main/start\n11\n"

def sampleRejection : String :=
  "rejected after 2 steps in main/start\n11\n"

/-- Whether a simulation takes two transitions and is then rejected, and is shown so. -/
def isSampleRun (s : Simulation) : Bool :=
  (s.runFor 2).1.toOption = some .running && (s.runFor 3).1.toOption = some .rejected &&
    stepsText (s :: s.passed 2) = sampleSteps && stepsText (s :: s.passed 3) = sampleSteps &&
    endingText "step limit reached" (s.runFor 2).2 = sampleLimit &&
    endingText "rejected" (s.runFor 3).2 = sampleRejection

/-- Whether the machine does so on two ones, and there is no machine of another name. -/
def sampleRejects (d : MachineDocument) : Bool :=
  (Project.build 0 (.ofList [("main", d)])).toOption.any fun built =>
    (built.1.machine? "absent").isNone &&
    (Simulation.start built.1 "main" (.ofText "11" '_')).toOption.any isSampleRun

set_option maxRecDepth 4000 in
theorem exists_read_sampleText : ∃ d, MachineDocument.read sampleText = .ok d ∧
    sampleRejects d = true :=
  exists_readDocument String.toList_ofList (by decide +kernel)

set_option maxRecDepth 4000 in
theorem loadDocuments_single {text : String} {d : MachineDocument}
    (hread : MachineDocument.read text = .ok d) :
    Directory.loadDocuments ⟨[(bytesOf ("main" ++ machineEnding), .file (bytesOf text))]⟩ "p" =
      .ok (.ofList [("main", d)]) := by
  have hname : machineOfFile? (bytesOf ("main" ++ machineEnding)) = some "main" := by
    decide +kernel
  have hlength : ¬ maxPathLength < (bytesOf (machineFile "p" "main")).length := by decide +kernel
  simp [Directory.loadDocuments, Directory.machineNames, Directory.machineOfEntry?, hname,
    Directory.loadDocument, Directory.readMachineFile, if_neg hlength, Directory.readText,
    Directory.find?, textOf?_bytesOf, hread]

theorem runs_of_isSampleRun {s : Simulation} (h : isSampleRun s = true) : ∃ t u,
    s.runFor 2 = (.ok .running, t) ∧ s.runFor 3 = (.ok .rejected, u) ∧
      stepsText (s :: s.passed 2) = sampleSteps ∧ stepsText (s :: s.passed 3) = sampleSteps ∧
      endingText "step limit reached" t = sampleLimit ∧
      endingText "rejected" u = sampleRejection := by
  simp only [isSampleRun, Bool.and_eq_true, decide_eq_true_eq] at h
  obtain ⟨⟨⟨⟨⟨hrunning, hrejected⟩, htwo⟩, hthree⟩, hlimit⟩, hrejection⟩ := h
  exact ⟨_, _, Prod.ext (eq_ok_of_toOption hrunning) rfl, Prod.ext (eq_ok_of_toOption hrejected) rfl,
    htwo, hthree, hlimit, hrejection⟩

theorem load_of_documents {o : Options} {w : Surroundings} {path : String} {directory : Directory}
    {documents : ProjectDocument} {built : Project × Identity} (hpath : o.project = some path)
    (hopened : w.openDirectory path = .ok directory)
    (hdocuments : directory.loadDocuments path = .ok documents)
    (hbuilt : Project.build 0 documents = .ok built) :
    load o w = .ok ⟨built.1, "main", ""⟩ := by
  simp only [load, hpath, hopened, Project.load, hdocuments, hbuilt, bind, Except.bind, pure,
    Except.pure]

theorem load_sample (machine : Option String) (budget : Option Nat) : ∃ project s,
    load (sampleOptions machine budget) sampleSurroundings = .ok ⟨project, "main", ""⟩ ∧
      project.machine? "absent" = none ∧
      Simulation.start project "main" (.ofText "11" '_') = .ok s ∧ isSampleRun s = true := by
  obtain ⟨d, hread, hd⟩ := exists_read_sampleText
  have hdocuments := loadDocuments_single hread
  unfold sampleRejects at hd
  cases hbuilt : Project.build 0 (.ofList [("main", d)]) with
  | error e =>
    rw [hbuilt] at hd
    cases hd
  | ok built =>
    rw [hbuilt] at hd
    obtain ⟨habsent, hsample⟩ := (Bool.and_eq_true _ _).mp hd
    have hload : load (sampleOptions machine budget) sampleSurroundings =
        .ok ⟨built.1, "main", ""⟩ := load_of_documents rfl rfl hdocuments hbuilt
    cases hstart : Simulation.start built.1 "main" (.ofText "11" '_') with
    | error e =>
      rw [hstart] at hsample
      cases hsample
    | ok s =>
      rw [hstart] at hsample
      exact ⟨built.1, s, hload, Option.isNone_iff_eq_none.mp habsent, hstart, hsample⟩

/-- The run is rejected after two transitions, with a budget of three and without one. A budget of two
does not show that. A machine that is absent cannot be started. -/
theorem budget_of_sample :
    (∀ patience, run patience (sampleOptions (some "absent") (some 3)) sampleSurroundings =
      some ⟨2, "", ["Error: Machine not found: absent"]⟩) ∧
    (∃ enough, ∀ patience ≥ enough,
      run patience (sampleOptions none none) sampleSurroundings =
        some ⟨1, sampleSteps ++ sampleRejection, []⟩) ∧
    (∀ patience, run patience (sampleOptions none (some 3)) sampleSurroundings =
      some ⟨1, sampleSteps ++ sampleRejection, []⟩) ∧
    ∀ patience, run patience (sampleOptions none (some 2)) sampleSurroundings =
      some ⟨1, sampleSteps ++ sampleLimit, []⟩ := by
  refine ⟨?_, ?_, ?_, ?_⟩
  · obtain ⟨project, s, hload, habsent, -⟩ := load_sample (some "absent") (some 3)
    have hstart : Simulation.start project "absent" (.ofText "11" '_') =
        .error (.machineNotFound "absent") := by
      simp only [Simulation.start, habsent]
    exact ((budget_decides_outcome _ _).2 _ "11" rfl hload rfl).1 _ hstart
  · obtain ⟨project, s, hload, -, hstart, hsample⟩ := load_sample none none
    obtain ⟨t, u, -, hrun, -, hsteps, -, hending⟩ := runs_of_isSampleRun hsample
    obtain ⟨hthree, hu⟩ := Simulation.runFor_eq_ok_iff.mp hrun
    have hruns : RunsTo s .rejected u := hu ▸ hthree.runsTo (by simp [hu])
    obtain ⟨enough, shown, r, hshows, htells, henough⟩ :=
      ((((budget_decides_outcome _ _).2 _ "11" rfl hload rfl).2 s hstart).1 rfl).2.1 _ _ hruns
    have hshown : stepsText shown = sampleSteps := by
      rw [hshows.unique (shows_shownBy_of_ended (n := 3) rfl (by simp [hrun]))]
      exact hsteps
    cases htells
    rw [hshown, hending] at henough
    exact ⟨enough, henough⟩
  · obtain ⟨project, s, hload, -, hstart, hsample⟩ := load_sample none (some 3)
    obtain ⟨t, u, -, hrun, -, hsteps, -, hending⟩ := runs_of_isSampleRun hsample
    obtain ⟨shown, r, hshows, htells, hreport, -⟩ :=
      (((budget_decides_outcome _ _).2 _ "11" rfl hload rfl).2 s hstart).2 3 _ _ rfl hrun
    have hshown : stepsText shown = sampleSteps := by
      rw [hshows.unique (shows_shownBy_of_budget rfl s)]
      exact hsteps
    cases htells
    rwa [hshown, hending] at hreport
  · obtain ⟨project, s, hload, -, hstart, hsample⟩ := load_sample none (some 2)
    obtain ⟨t, u, hrun, -, hsteps, -, hending, -⟩ := runs_of_isSampleRun hsample
    obtain ⟨shown, r, hshows, htells, hreport, -⟩ :=
      (((budget_decides_outcome _ _).2 _ "11" rfl hload rfl).2 s hstart).2 2 _ _ rfl hrun
    have hshown : stepsText shown = sampleSteps := by
      rw [hshows.unique (shows_shownBy_of_budget rfl s)]
      exact hsteps
    cases htells
    rwa [hshown, hending] at hreport

end CommandLine

end HierarchicalTuring
