import WordMachine.Arguments.Grammar
import WordMachine.Listing.Request
import WordMachine.Log.Filter
import WordMachine.Log.Line
import WordMachine.Machine.Policy
import WordMachine.Report
import WordMachine.Settings.Basic

/-! # Invocations

The command line of the program: three subcommands with options of their own, and options for the
log that may stand in front of a subcommand or behind it. Where such an option is given twice, the
one behind the subcommand counts. -/

namespace WordMachine

/-- Whether log lines have colours. -/
inductive ColorMode where
  | always
  | auto
  | never
deriving DecidableEq, Repr

namespace ColorMode

def name : ColorMode → String
  | always => "always"
  | auto => "auto"
  | never => "never"

def all : List ColorMode := [always, auto, never]

/-- The mode of a name, exactly as written. -/
def ofName? (s : String) : Option ColorMode := all.find? (·.name == s)

/-- What a user is told about a name that is none. -/
def complaint (s : String) : String := "Invalid color mode: " ++ s

end ColorMode

/-- The options for the log. -/
structure LogOptions where
  format : Log.Format := .terminal
  /-- Directives added to the filter. -/
  filter : String := ""
  color : ColorMode := .always
  /-- How often more detail was asked for. -/
  verbosity : Nat := 1
  quiet : Bool := false
deriving DecidableEq, Repr

/-- The most detailed level that the options ask for. -/
def LogOptions.threshold (o : LogOptions) : Log.Threshold :=
  if o.quiet then none
  else match o.verbosity - 1 with
    | 0 => some .warn
    | 1 => some .info
    | 2 => some .debug
    | _ => some .trace

/-- The options of a run. -/
structure RunOptions where
  target : String
  strict : Bool := false
  stackLimit : Option Nat := none
  memoryLimit : Option Nat := none
  stepLimit : Option Nat := none
  output : ReportFormat := .text
deriving DecidableEq, Repr

/-- The policy of a run: that of the settings, except where an option is given. -/
def RunOptions.policy (o : RunOptions) (s : Settings) : Policy :=
  let p := s.toPolicy
  { strict := o.strict || p.strict
    stackLimit := o.stackLimit <|> p.stackLimit
    memoryLimit := o.memoryLimit <|> p.memoryLimit
    stepLimit := o.stepLimit <|> p.stepLimit }

/-- What the program is asked to do. -/
inductive Command where
  | run (options : RunOptions)
  | disassemble (request : Listing.Request)
  /-- Shows the settings if the key is empty, and sets one otherwise. -/
  | config (key value : String)
deriving DecidableEq, Repr

/-- A command line. -/
structure Invocation where
  command : Command
  log : LogOptions
deriving DecidableEq, Repr

namespace Invocation

/-! ### Options -/

/-- Refuses names that a function does not know. -/
def known {α : Type} (ofName? : String → Option α) (s : String) : Option UsageError :=
  if (ofName? s).isSome then none else some .invalidValue

/-- Refuses what is no number of 64 bits. -/
def numeric (s : String) : Option UsageError :=
  match Numeral.readUnsigned s with
  | .ok _ => none
  | .error _ => some .valueValidation

/-- An option that takes a number. -/
def limitOption (name : String) : OptionSpec :=
  { id := name, longs := [name], action := .value numeric }

def helpOption : OptionSpec :=
  { id := "help", longs := ["help"], short := some 'h', action := .stop .displayHelp }

def versionOption : OptionSpec :=
  { id := "version", longs := ["version"], short := some 'V', action := .stop .displayVersion }

def formatOption : OptionSpec :=
  { id := "format", longs := ["log.stdout.format"], action := .value (known Log.Format.ofName?) }

def filterOption : OptionSpec :=
  { id := "filter", longs := ["log.stdout.filter"], action := .value fun _ => none }

def colorOption : OptionSpec :=
  { id := "color", longs := ["color"], action := .value (known ColorMode.ofName?) }

def verbosityOption : OptionSpec :=
  { id := "verbosity", longs := ["verbosity"], short := some 'v', action := .count }

def quietOption : OptionSpec :=
  { id := "quiet", longs := ["quiet", "silent"], short := some 'q', action := .toggle }

/-- The options that may stand in front of a subcommand or behind it. -/
def logOptions : List OptionSpec :=
  [formatOption, filterOption, colorOption, verbosityOption, quietOption]

def strictOption : OptionSpec := { id := "strict", longs := ["strict"], action := .toggle }

def stackOption : OptionSpec := limitOption "stack-limit"

def memoryOption : OptionSpec := limitOption "memory-limit"

def stepOption : OptionSpec := limitOption "step-limit"

def outputOption : OptionSpec :=
  { id := "output", longs := ["output"], short := some 'o',
    action := .value (known ReportFormat.ofName?) }

def decimalOption : OptionSpec :=
  { id := "decimal", longs := ["decimal-counter"], short := some 'd', action := .toggle }

def targetPositional : PositionalSpec := { id := "target", required := true }

def keyPositional : PositionalSpec := { id := "key", required := false }

def valuePositional : PositionalSpec := { id := "value", required := false }

/-! ### Grammars -/

/-- The arguments of `run` on its own. -/
def runGrammar : Grammar :=
  { options := [strictOption, stackOption, memoryOption, stepOption, outputOption, helpOption]
    positionals := [targetPositional] }

/-- The arguments of `disassemble` on its own. -/
def disassembleGrammar : Grammar :=
  { options := [decimalOption, helpOption], positionals := [targetPositional] }

/-- The arguments of `config` on its own. -/
def configGrammar : Grammar :=
  { options := [helpOption], positionals := [keyPositional, valuePositional] }

/-- The arguments in front of a subcommand. -/
def topGrammar : Grammar :=
  { options := logOptions ++ [helpOption, versionOption]
    commands := ["run", "disassemble", "config", Grammar.helpCommand] }

/-- A subcommand that also takes the options for the log. -/
def withLog (g : Grammar) : Grammar := { g with options := g.options ++ logOptions }

/-! ### Meaning -/

/-- The number given for an option. -/
def number? (g : Given) (o : OptionSpec) : Option Nat :=
  (g.value? o.id).bind fun s => (Numeral.readUnsigned s).toOption

/-- The value given for an option that takes names. -/
def named {α : Type} (g : Given) (o : OptionSpec) (ofName? : String → Option α) (absent : α) : α :=
  ((g.value? o.id).bind ofName?).getD absent

/-- The options of a run. -/
def runOptions (g : Given) : RunOptions where
  target := (g.value? targetPositional.id).getD ""
  strict := g.has strictOption.id
  stackLimit := number? g stackOption
  memoryLimit := number? g memoryOption
  stepLimit := number? g stepOption
  output := named g outputOption ReportFormat.ofName? .text

/-- The command of a subcommand. -/
def commandOf (name : String) (g : Given) : Command :=
  if name = "run" then .run (runOptions g)
  else if name = "disassemble" then
    .disassemble
      { target := (g.value? targetPositional.id).getD "", decimal := g.has decimalOption.id }
  else .config ((g.value? keyPositional.id).getD "") ((g.value? valuePositional.id).getD "")

/-- The grammar of a subcommand. -/
def grammarOf (name : String) : Grammar :=
  if name = "run" then withLog runGrammar
  else if name = "disassemble" then withLog disassembleGrammar
  else withLog configGrammar

/-- What was given for an option behind the subcommand, or else in front of it. -/
def inner (front behind : Given) (o : OptionSpec) : Given :=
  if behind.has o.id then behind else front

/-- The options for the log. -/
def logOptionsOf (front behind : Given) : LogOptions where
  format := named (inner front behind formatOption) formatOption Log.Format.ofName? .terminal
  filter := ((inner front behind filterOption).value? filterOption.id).getD ""
  color := named (inner front behind colorOption) colorOption ColorMode.ofName? .always
  verbosity :=
    let given := inner front behind verbosityOption
    if given.has verbosityOption.id then given.count verbosityOption.id else 1
  quiet := (inner front behind quietOption).has quietOption.id

/-- Reads the arguments of `run` on its own. -/
def readRun (args : List String) : Except UsageError RunOptions := do
  return runOptions (← runGrammar.read args)

/-- Reads the arguments of `config` on its own: a key and a value. -/
def readConfig (args : List String) : Except UsageError (String × String) := do
  let given ← configGrammar.read args
  return ((given.value? keyPositional.id).getD "", (given.value? valuePositional.id).getD "")

/-- Reads a command line, without the name of the program. -/
def read (args : List String) : Except UsageError Invocation := do
  let (reading, command) ← topGrammar.scan {} args
  match command with
  | none => do
    let front ← topGrammar.finish reading false
    return { command := commandOf "" [], log := logOptionsOf front [] }
  | some (name, args) => do
    let behind ← (grammarOf name).read args
    let front ← topGrammar.finish reading true
    return { command := commandOf name behind, log := logOptionsOf front behind }

end Invocation

end WordMachine
