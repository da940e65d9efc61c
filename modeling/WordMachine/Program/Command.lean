import WordMachine.Arguments.Invocation
import WordMachine.Machine.Notices
import WordMachine.Program.Session
import WordMachine.Settings.Update

/-! # Commands

What each command does in a session.

* **Run.** Settings are the defaults of the run; where they cannot be loaded a warning is noted and
  the run goes on without them. A file that does not exist is created.
* **Disassemble.** The settings are not looked at.
* **Config.** Shows the settings, or changes one of them. A key without a value is answered by a
  note, not by a failure. -/

namespace WordMachine

/-- The part of the program that looks at the command line. -/
def Command.logTarget : String := "minievm"

namespace RunOptions

/-- The part of the program that prepares a run. -/
def logTarget : String := "minievm::run"

/-- The machine of a run: the code of the target under the policy. -/
def machine (o : RunOptions) (s : Settings) (fs : FileSystem) : Except TargetError Machine :=
  (Target.resolve fs o.target).map fun code => .load code (o.policy s)

/-- The report of a machine that runs. -/
def reportOf (m : Machine) : Except ProgramError Report :=
  match m.run with
  | .ok r _ => .ok r
  | .error fault _ => .error (.execution fault)

/-- The report of a run. -/
def result (o : RunOptions) (s : Settings) (fs : FileSystem) : Except ProgramError Report :=
  match o.machine s fs with
  | .error cause => .error (.input cause)
  | .ok m => reportOf m

/-- What is noted before a machine runs. -/
def startNote (m : Machine) : Log.Record :=
  { level := .debug, target := logTarget,
    message := "executing " ++ Numeral.decimal m.code.length ++ " bytes",
    fields := [("config", .text m.policy.debug)] }

/-- What is noted after a machine has run. -/
def endNote (r : Report) : Log.Record :=
  { level := .info, target := logTarget,
    message := "executed " ++ Numeral.decimal r.steps ++ " instruction(s)" }

/-- What is noted during a run. -/
def notices (o : RunOptions) (s : Settings) (fs : FileSystem) : List Log.Record :=
  Target.notices fs o.target ++
    match o.machine s fs with
    | .error _ => []
    | .ok m => startNote m :: m.notices ++ (o.result s fs).toOption.toList.map endNote

end RunOptions

namespace Command

/-- The settings in the file, or the default ones where they cannot be loaded. -/
def settings [Disk] (path : String) : Action Settings := fun session =>
  match Settings.load path session.files with
  | .ok s files => .ok s { session with files }
  | .error e files =>
    let warning : Log.Record :=
      { level := .warn, target := logTarget,
        message := "failed to load configuration, using defaults: " ++ e.message }
    (Action.notes [warning] *> pure {}) { session with files }

/-- Executes a target and prints the report. -/
def execute [Disk] (path : String) (color : Bool) (o : RunOptions) : Action Unit := do
  Action.notes (Settings.notices path (← Action.files))
  let s ← settings path
  Action.notes [{
    level := .debug, target := logTarget, message := "loaded configuration",
    fields := [("configuration", .text s.debug)] }]
  let fs ← Action.files
  Action.notes (o.notices s fs)
  let r ← Action.orFail id (o.result s fs)
  Action.print (r.render o.output color)

/-- Prints the listing of a target. -/
def list (r : Listing.Request) : Action Unit := do
  let fs ← Action.files
  Action.notes (r.notices fs)
  Action.print (← Action.orFail .listing (r.listing fs))

/-- Prints the settings. -/
def showSettings [Disk] (path : String) : Action Unit := do
  Action.notes (Settings.notices path (← Action.files))
  let s ← Action.onFiles .config (Settings.load path)
  Action.print ("# " ++ path ++ "\n")
  Action.print (← Action.orFail .config s.toDocument)
  Action.notes [{
    level := .info, target := Settings.logTarget,
    message := "use \x60minievm config <KEY> <VALUE>\x60 to set a key/value pair." }]

/-- Changes one setting. -/
def changeSetting [Disk] (path key value : String) : Action Unit := do
  Action.notes (Settings.notices path (← Action.files))
  Action.onFiles .config (Settings.change path key value)
  Action.notes [{
    level := .info, target := Settings.logTarget,
    message := "updated configuration! Set '" ++ key ++ "' = '" ++ value ++ "' ." }]

/-- The note about a key without a value. -/
def missingValue : Log.Record :=
  { level := .error, target := Settings.logTarget,
    message := "found key but no value to set. Please specify a value to set, use " ++
      "\x60minievm config --help\x60 for more information." }

/-- Shows the settings or changes one of them; an empty key or value counts as absent. -/
def configure [Disk] (path key value : String) : Action Unit :=
  if key = "" then showSettings path
  else if value = "" then Action.notes [missingValue]
  else changeSetting path key value

/-- What a command does, given the path of the settings and whether its text has colours. -/
def perform [Disk] (path : String) (color : Bool) : Command → Action Unit
  | .run options => execute path color options
  | .disassemble request => list request
  | .config key value => configure path key value

end Command

end WordMachine
