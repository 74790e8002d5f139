import HierarchicalTuring.Analysis.Basic
import HierarchicalTuring.CommandLine.Options
import HierarchicalTuring.Files.Project
import HierarchicalTuring.Program.Library
import HierarchicalTuring.Simulation.Basic

/-! # Runs of the command line

* `Surroundings`: what a run sees of the world, its directories and its standard input.
* `Report`: what it leaves behind, an exit code, an output and messages.
* `trace` steps until a number of transitions is reached, and keeps a line for every step that goes
  on.
* `respond` is the whole command line. A run with a step budget always ends. For one without,
  `patience` bounds the steps that are tried, and there is no report if they are too few.
-/

set_option autoImplicit false

namespace HierarchicalTuring.CommandLine

/-- What a run sees of the world. -/
structure Surroundings where
  openDirectory : String → Opened
  /-- What stands on the standard input; none for a terminal. -/
  standardInput : Option Bytes

/-- What a run leaves behind. -/
structure Report where
  exitCode : Nat
  /-- The standard output. -/
  output : String
  /-- The lines of the standard error. -/
  messages : List String
deriving DecidableEq, Repr, Inhabited

/-- Texts as lines. -/
def lines (texts : List String) : String :=
  String.join (texts.map (· ++ "\n"))

/-- The message of an error. -/
def errorMessage (e : Error) : String :=
  "Error: " ++ e.message

/-! ## What to run -/

/-- A project with the machine and the input it is run with by default. -/
structure Task where
  project : Project
  machine : String
  input : String

/-- Loads what the options name. -/
def load (o : Options) (s : Surroundings) : Except Error Task :=
  match o.project, o.builtIn with
  | some path, _ => do
    let (project, _) ← Project.load 0 path (s.openDirectory path)
    return ⟨project, "main", ""⟩
  | none, some name => do
    let program ← (Library.builtIn 0).named name
    return ⟨program.project, program.machine, program.input⟩
  | none, none => .error (.validation "Provide --project or --builtin")

/-- A text without line ends at its end. -/
def withoutLineEnds (text : String) : String :=
  String.ofList (text.toList.reverse.dropWhile fun c => c = '\n' || c = '\r').reverse

/-- The text on the tape: the given one, then the standard input, and the default where a terminal
is the standard input. -/
def tapeText (o : Options) (s : Surroundings) (default : String) : Except Error String :=
  match o.input, s.standardInput with
  | some input, _ => .ok input
  | none, none => .ok default
  | none, some bytes =>
    match textOf? bytes with
    | some text => .ok (withoutLineEnds text)
    | none => .error (.fileError s!"Failed to read from stdin: {Refusal.notUtf8.message}")

/-! ## Running -/

/-- A frame as traces show it. -/
def frameText (frame : Frame) : String :=
  frame.machine.name ++ "/" ++ frame.state.name

/-- The line of a trace for the present state of a simulation. -/
def traceLine (s : Simulation) : String :=
  "Step: " ++ toString s.stepCount ++
    ", Frames: " ++ " > ".intercalate (s.frames.map frameText) ++
    ", Head: " ++ toString s.head.position ++
    ", Tape: [" ++ s.head.tape.contents ++ "]"

/-- What bounded stepping gives: the lines of its trace, the status or error, and the simulation. -/
structure Traced where
  lines : List String
  result : Except SimulationError Status
  simulation : Simulation

/-- Steps until the simulation halts or fails, or has taken as many transitions as it may. The lines
so far come in reverse. -/
def trace (limit : Nat) (lines : List String) (s : Simulation) : Traced :=
  if limit ≤ s.stepCount then ⟨lines.reverse, .ok s.status, s⟩
  else
    match h : s.step with
    | (.error e, t) => ⟨lines.reverse, .error e, t⟩
    | (.ok (.halts status), t) => ⟨lines.reverse, .ok status, t⟩
    | (.ok .proceeds, t) =>
      have : t.stepCount = s.stepCount + 1 := Simulation.stepCount_of_proceeds h
      trace limit (traceLine t :: lines) t
termination_by limit - s.stepCount

/-- Steps a simulation, with a line for each step if the options ask for it. -/
def stepThrough (o : Options) (s : Simulation) (bound : Nat) : Traced :=
  if o.debug then trace bound [traceLine s] s
  else
    let (result, t) := s.runFor bound
    ⟨[], result, t⟩

/-- The word for a final status. -/
def outcomeText : Status → String
  | .accepted => "accepted"
  | .rejected => "rejected"
  | .running => "step limit reached"

/-- The line that tells how a run ended. -/
def outcomeLine (status : Status) (s : Simulation) : String :=
  outcomeText status ++ " after " ++ toString s.stepCount ++ " steps in " ++ frameText s.current

/-- The report of stepping, behind earlier messages. -/
def report (warnings : List String) (traced : Traced) : Report :=
  match traced.result with
  | .error e => ⟨2, lines traced.lines, warnings ++ [errorMessage e]⟩
  | .ok status =>
    ⟨if status = .accepted then 0 else 1,
      lines (traced.lines ++
        [outcomeLine status traced.simulation, traced.simulation.head.tape.contents]),
      warnings⟩

/-- The report of a simulation, unless it has no bound and goes on for too long. -/
def simulate (patience : Nat) (o : Options) (warnings : List String) (s : Simulation) :
    Option Report :=
  match o.maxSteps with
  | some bound => some (report warnings (stepThrough o s bound))
  | none =>
    let traced := stepThrough o s patience
    match traced.result with
    | .ok .running => none
    | _ => some (report warnings traced)

/-- The warnings about a project, if the options ask for them. -/
def warnings (o : Options) (p : Project) : List String :=
  if o.check then p.analyze.map fun issue => "warning: " ++ issue.toError.message else []

/-- The simulation that the options ask for. -/
def begin (o : Options) (s : Surroundings) (task : Task) : Except Error Simulation := do
  let input ← tapeText o s task.input
  (Simulation.start task.project (o.machine.getD task.machine)
    (Tape.ofText input o.blank)).mapError Error.simulation

/-- Does what the options ask for. -/
def run (patience : Nat) (o : Options) (s : Surroundings) : Option Report :=
  if o.list then some ⟨0, lines (Library.builtIn 0).names, []⟩
  else
    match load o s with
    | .error e => some ⟨2, "", [errorMessage e]⟩
    | .ok task =>
      let warnings := warnings o task.project
      match begin o s task with
      | .error e => some ⟨2, "", warnings ++ [errorMessage e]⟩
      | .ok simulation => simulate patience o warnings simulation

/-! ## The whole command line -/

/-- How the command line is used. -/
def usage : List String := [
  "Options:",
  "  -p, --project DIR     directory with the machine files of a project",
  "  -b, --builtin NAME    built-in program, instead of a project",
  "  -m, --machine NAME    machine to start in",
  "  -i, --input TEXT      text on the tape, otherwise read from standard input",
  "      --blank CHAR      empty character of the tape",
  "      --max-steps N     step budget, 0 for none",
  "  -d, --debug           show every step",
  "      --check           report issues of the project before the run",
  "      --list            list the built-in programs",
  "  -h, --help            show this help",
  "  -V, --version         show the version"]

/-- The directory that arguments name, if it is needed. -/
def directoryOf? (arguments : List String) : Option String :=
  match parseArguments arguments with
  | .ok (.run o) => if o.list then none else o.project
  | _ => none

/-- Whether the answer to arguments depends on the standard input. -/
def readsInput (arguments : List String) : Bool :=
  match parseArguments arguments with
  | .ok (.run o) => !o.list && o.input.isNone
  | _ => false

/-- What the command line answers to arguments. -/
def respond (patience : Nat) (arguments : List String) (s : Surroundings) : Option Report :=
  match parseArguments arguments with
  | .error misuse => some ⟨2, "", ("error: " ++ misuse.message) :: usage⟩
  | .ok .help => some ⟨0, lines usage, []⟩
  | .ok .version => some ⟨0, lines ["0.0.1"], []⟩
  | .ok (.run o) => run patience o s

end HierarchicalTuring.CommandLine
