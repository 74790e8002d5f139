import HierarchicalTuring.Decimal.Digit
import HierarchicalTuring.Document.Project
import HierarchicalTuring.Tape

/-! # Command-line options

* `Switch` and `Setting` are the options without and with a value. A value stands behind its option,
  joined by an equals sign or as the next argument, which may then not look like an option; short
  switches may be bundled.
* `Given` holds what the options read so far have set. An option may be given once, and a value has
  to be of the kind of its setting.
* `readArguments` reads arguments from left to right and ends early at a `Stop`: the first misuse,
  or a request for help or for the version, whatever comes after it.
* `parseArguments` judges the options together when all are read: no option at all is a misuse, and
  so is a project with a built-in program.
-/

set_option autoImplicit false

namespace HierarchicalTuring.CommandLine

/-- The largest step budget. -/
def maxBudget : Nat := Nat.pow 2 64 - 1

/-- The step budget of a run that is not given one. -/
def defaultMaxSteps : Nat := 10000

inductive Switch where
  | debug
  | check
  | list
  | help
  | version
deriving DecidableEq, Repr

inductive Setting where
  | project
  | builtIn
  | machine
  | input
  | blank
  | maxSteps
deriving DecidableEq, Repr

/-- An option by its kind. -/
inductive OptionKind where
  | switch (switch : Switch)
  | setting (setting : Setting)
deriving DecidableEq, Repr

/-- Why arguments cannot be understood. -/
inductive Misuse where
  | nothingAsked
  | unknownOption (name : String)
  | strayArgument (argument : String)
  | missingValue (option : String)
  | needlessValue (option : String)
  | repeated
  | conflict
  | invalidValue (value : String)
deriving DecidableEq, Repr

/-- The wording of a misuse. -/
def Misuse.message : Misuse → String
  | .nothingAsked => "nothing to do"
  | .unknownOption name => s!"unknown option {name}"
  | .strayArgument argument => s!"unexpected argument {argument}"
  | .missingValue option => s!"option {option} needs a value"
  | .needlessValue option => s!"option {option} takes no value"
  | .repeated => "an option is given more than once"
  | .conflict => "a project and a built-in program cannot be given together"
  | .invalidValue value => s!"invalid value {value}"

/-! ## Given options -/

/-- What options have set, each of them at most once. -/
structure Given where
  project : Option String
  builtIn : Option String
  machine : Option String
  input : Option String
  blank : Option Char
  maxSteps : Option Nat
  debug : Bool
  check : Bool
  list : Bool
deriving DecidableEq, Repr

/-- No option. -/
def Given.nothing : Given :=
  ⟨none, none, none, none, none, none, false, false, false⟩

/-- Why arguments are not read to their end. -/
inductive Stop where
  | misuse (misuse : Misuse)
  | help
  | version
deriving DecidableEq, Repr

/-- A text that is not empty. -/
def nonEmpty? (text : String) : Option String :=
  if text = "" then none else some text

/-- A count of at most 64 bits: digits, perhaps with a plus sign before them. -/
def count? (text : String) : Option Nat :=
  let digits := match text.toList with
    | '+' :: digits => digits
    | digits => digits
  if digits ≠ [] ∧ digits.all Char.isDigit ∧ numberOfChars digits ≤ maxBudget then
    some (numberOfChars digits)
  else none

/-- Sets a setting that has not been set, to a value that has to be of its kind. -/
def setOnce {α : Type} (before : Option α) (read : String → Option α) (value : String) :
    Except Stop (Option α) :=
  match before, read value with
  | some _, _ => .error (.misuse .repeated)
  | none, some x => .ok (some x)
  | none, none => .error (.misuse (.invalidValue value))

/-- Turns on a switch that is off. -/
def turnOnce (before : Bool) : Except Stop Bool :=
  if before then .error (.misuse .repeated) else .ok true

/-- The options with one more setting. -/
def Given.set (given : Given) (setting : Setting) (value : String) : Except Stop Given :=
  match setting with
  | .project => return { given with project := ← setOnce given.project nonEmpty? value }
  | .builtIn => return { given with builtIn := ← setOnce given.builtIn some value }
  | .machine => return { given with machine := ← setOnce given.machine some value }
  | .input => return { given with input := ← setOnce given.input some value }
  | .blank => return { given with blank := ← setOnce given.blank singleChar? value }
  | .maxSteps => return { given with maxSteps := ← setOnce given.maxSteps count? value }

/-- The options with one more switch. -/
def Given.turnOn (given : Given) (switch : Switch) : Except Stop Given :=
  match switch with
  | .debug => return { given with debug := ← turnOnce given.debug }
  | .check => return { given with check := ← turnOnce given.check }
  | .list => return { given with list := ← turnOnce given.list }
  | .help => .error .help
  | .version => .error .version

/-! ## Arguments -/

def longOption? (name : String) : Option OptionKind :=
  if name = "project" then some (.setting .project)
  else if name = "builtin" then some (.setting .builtIn)
  else if name = "machine" then some (.setting .machine)
  else if name = "input" then some (.setting .input)
  else if name = "blank" then some (.setting .blank)
  else if name = "max-steps" then some (.setting .maxSteps)
  else if name = "debug" then some (.switch .debug)
  else if name = "check" then some (.switch .check)
  else if name = "list" then some (.switch .list)
  else if name = "help" then some (.switch .help)
  else if name = "version" then some (.switch .version)
  else none

def shortOption? : Char → Option OptionKind
  | 'p' => some (.setting .project)
  | 'b' => some (.setting .builtIn)
  | 'm' => some (.setting .machine)
  | 'i' => some (.setting .input)
  | 'd' => some (.switch .debug)
  | 'h' => some (.switch .help)
  | 'V' => some (.switch .version)
  | _ => none

/-- The options after an argument, and the setting whose value is still to come. -/
abbrev AfterArgument := Given × Option Setting

/-- Reads an argument behind its two dashes: a name, and a value behind an equals sign. -/
def readLong (given : Given) (cs : List Char) : Except Stop AfterArgument :=
  let name := String.ofList (cs.takeWhile (· ≠ '='))
  let value := (cs.dropWhile (· ≠ '=')).tail?.map String.ofList
  match longOption? name, value with
  | none, _ => .error (.misuse (.unknownOption name))
  | some (.switch switch), none => return (← given.turnOn switch, none)
  | some (.switch _), some _ => .error (.misuse (.needlessValue name))
  | some (.setting setting), some value => return (← given.set setting value, none)
  | some (.setting setting), none => .ok (given, some setting)

/-- The value behind a short option, without an equals sign between them. -/
def joinedValue : List Char → String
  | '=' :: cs => String.ofList cs
  | cs => String.ofList cs

/-- Reads an argument behind its dash: switches, and at the end a setting with its value. -/
def readShort (given : Given) : List Char → Except Stop AfterArgument
  | [] => .ok (given, none)
  | c :: rest =>
    match shortOption? c with
    | none => .error (.misuse (.unknownOption (String.singleton c)))
    | some (.switch switch) => do readShort (← given.turnOn switch) rest
    | some (.setting setting) =>
      if rest = [] then .ok (given, some setting)
      else return (← given.set setting (joinedValue rest), none)

/-- Whether an argument looks like an option and so cannot be a value that stands alone. -/
def looksLikeOption (argument : String) : Bool :=
  match argument.toList with
  | '-' :: _ :: _ => true
  | _ => false

/-- Reads one argument as options. -/
def readArgument (given : Given) (argument : String) : Except Stop AfterArgument :=
  match argument.toList with
  | '-' :: '-' :: cs => readLong given cs
  | '-' :: c :: cs => readShort given (c :: cs)
  | _ => .error (.misuse (.strayArgument argument))

/-- Reads arguments as options, up to two dashes that stand alone. -/
def readArguments (given : Given) : List String → Except Stop Given
  | [] => .ok given
  | argument :: rest =>
    if argument = "--" then
      match rest with
      | [] => .ok given
      | stray :: _ => .error (.misuse (.strayArgument stray))
    else
      match readArgument given argument with
      | .error stop => .error stop
      | .ok (given, none) => readArguments given rest
      | .ok (given, some setting) =>
        match rest with
        | [] => .error (.misuse (.missingValue argument))
        | value :: rest =>
          if looksLikeOption value then .error (.misuse (.missingValue argument))
          else
            match given.set setting value with
            | .error stop => .error stop
            | .ok given => readArguments given rest

/-! ## Options -/

/-- What a run of the command line is asked to do. -/
structure Options where
  project : Option String
  builtIn : Option String
  machine : Option String
  input : Option String
  blank : Char
  /-- No number stands for a run without a bound. -/
  maxSteps : Option Nat
  debug : Bool
  check : Bool
  list : Bool
deriving DecidableEq, Repr

/-- What arguments ask for. -/
inductive Request where
  | run (options : Options)
  | help
  | version
deriving DecidableEq, Repr

/-- The options of a run, from what was given. -/
def Given.toOptions (given : Given) : Options where
  project := given.project
  builtIn := given.builtIn
  machine := given.machine
  input := given.input
  blank := given.blank.getD defaultEmpty
  maxSteps :=
    match given.maxSteps.getD defaultMaxSteps with
    | 0 => none
    | bound => some bound
  debug := given.debug
  check := given.check
  list := given.list

/-- What arguments ask for. -/
def parseArguments (arguments : List String) : Except Misuse Request :=
  match readArguments .nothing arguments with
  | .error .help => .ok .help
  | .error .version => .ok .version
  | .error (.misuse misuse) => .error misuse
  | .ok given =>
    if given = .nothing then .error .nothingAsked
    else if given.project.isSome ∧ given.builtIn.isSome then .error .conflict
    else .ok (.run given.toOptions)

end HierarchicalTuring.CommandLine
