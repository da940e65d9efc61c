import WordMachine.Program.Command

/-! # The program

A command line is read, the command is performed in a session, and the transcript becomes two texts.

* **Log.** The notes of the transcript are shown on standard output, between the texts that the
  command prints, as far as the filter lets them through. Where the directives of the command line
  are not accepted there is no log, and a complaint about it instead.
* **Exit.** 0, or 1 for a command that failed, or 2 for a command line that is not understood. -/

namespace WordMachine

/-- What the program looks up in its surroundings. -/
structure Environment where
  /-- The path of the settings, if it is chosen. -/
  configPath : Option String := none
  home : String := ""
  /-- Directives of the log that take the place of the threshold. -/
  logFilter : String := ""
  /-- Overrides whether the log has colours. -/
  logStyle : Option String := none
  /-- Overrides whether log lines name a target. -/
  logTarget : Option String := none
  /-- Asks for colours in what the program prints, wherever it goes. -/
  forceColor : Option String := none
  /-- Asks for no colours in what the program prints. -/
  noColor : Option String := none
  /-- Says whether a terminal gets colours. -/
  terminalColor : Option String := none
  /-- Whether standard output is a terminal. -/
  terminal : Bool := false
deriving DecidableEq, Repr

namespace Environment

/-- The names of the variables that count. -/
def variableNames : List String :=
  ["MINIEVM_CONFIG", "HOME", "RUST_LOG", "RUST_LOG_STYLE", "RUST_LOG_TARGET", "CLICOLOR_FORCE",
    "NO_COLOR", "CLICOLOR"]

/-- The environment that variables describe. -/
def ofVariables (valueOf : String → Option String) (terminal : Bool) : Environment where
  configPath := valueOf "MINIEVM_CONFIG"
  home := (valueOf "HOME").getD ""
  logFilter := (valueOf "RUST_LOG").getD ""
  logStyle := valueOf "RUST_LOG_STYLE"
  logTarget := valueOf "RUST_LOG_TARGET"
  forceColor := valueOf "CLICOLOR_FORCE"
  noColor := valueOf "NO_COLOR"
  terminalColor := valueOf "CLICOLOR"
  terminal

/-- The path of the settings. -/
def settingsPath (e : Environment) : String := Settings.pathOf e.configPath e.home

/-- Whether what the program prints has colours. -/
def color (e : Environment) : Bool :=
  if e.forceColor.any (· ≠ "0") then true
  else if e.noColor.isSome then false
  else e.terminal && e.terminalColor.all (· ≠ "0")

/-- How log lines look. -/
def logStyleOf (e : Environment) (o : LogOptions) : Log.Style where
  format := o.format
  ansi := match e.logStyle with
    | some style => style ≠ "never"
    | none => o.color ≠ .never
  showTarget := e.logTarget.all (· ≠ "0")

end Environment

/-- What a call of the program leaves behind. -/
structure Outcome where
  exit : Nat
  stdout : String
  stderr : String
  files : FileSystem
deriving DecidableEq

namespace Program

/-- The name and the version of the program. -/
def version : String := "minievm 0.1.0\n"

/-- How the program is called. -/
def usage : String := "Usage: minievm [OPTIONS] <run|disassemble|config> [ARGUMENTS]\n"

/-- The outcome of a command line that asks for no command. -/
def answerUsage (fs : FileSystem) : UsageError → Outcome
  | .displayVersion => ⟨0, version, "", fs⟩
  | .displayHelp => ⟨0, usage, "", fs⟩
  | _ => ⟨2, "", "error: the command line is not understood\n\n" ++ usage, fs⟩

/-- The log of a call: its filter, and the complaints about directives that are not accepted. -/
def logFilter (e : Environment) (o : LogOptions) : Log.Filter × String :=
  let ignored := String.join ((Log.Filter.lenient e.logFilter).2.map (· ++ "\n"))
  match Log.Filter.build o.threshold e.logFilter o.filter with
  | .ok filter => (filter, ignored)
  | .error fault => ([], ignored ++ "failed to initialize logging: " ++ fault.message ++ "\n")

/-- What standard output shows of something that was said. -/
def shown (style : Log.Style) (filter : Log.Filter) (time : String) : Output → String
  | .text s => s
  | .note r => if filter.shows r then Log.Line.render style time r else ""

/-- What standard error shows of the end of a command. -/
def complaint : Option ProgramError → String
  | none => ""
  | some e => "Error: " ++ e.debug ++ "\n"

/-- Performs the command of a command line. -/
def perform [Disk] (e : Environment) (time : String) (i : Invocation) (fs : FileSystem) : Outcome :=
  let (filter, complaints) := logFilter e i.log
  let (failure, session) : Option ProgramError × Session :=
    match i.command.perform e.settingsPath e.color { files := fs } with
    | .ok _ session => (none, session)
    | .error failure session => (some failure, session)
  { exit := if failure.isSome then 1 else 0
    stdout := String.join (session.transcript.map (shown (e.logStyleOf i.log) filter time))
    stderr := complaints ++ complaint failure
    files := session.files }

/-- The paths that a call with these arguments may touch. -/
def pathsOf (e : Environment) (args : List String) : List String :=
  match Invocation.read args with
  | .error _ => []
  | .ok i =>
    match i.command with
    | .run o => [e.settingsPath, o.target]
    | .disassemble r => [r.target]
    | .config .. => [e.settingsPath]

/-- Calls the program with arguments. -/
def call [Disk] (e : Environment) (time : String) (args : List String) (fs : FileSystem) : Outcome :=
  match Invocation.read args with
  | .error fault => answerUsage fs fault
  | .ok invocation => perform e time invocation fs

end Program

end WordMachine
