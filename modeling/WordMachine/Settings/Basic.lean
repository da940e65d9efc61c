import WordMachine.Files.System
import WordMachine.Machine.Policy
import WordMachine.Text.Quoted

/-! # Settings

The defaults of a run: a switch and three limits, each known by a name, and what can go wrong with
them. -/

namespace WordMachine

/-- The defaults of a run. -/
structure Settings where
  strictOpcodes : Bool := false
  stackLimit : Option Nat := none
  memoryLimit : Option Nat := none
  stepLimit : Option Nat := none
deriving DecidableEq, Repr

/-- Why an action on settings failed. -/
inductive SettingsError where
  | unreadable (failure : Failure)
  | unwritable (failure : Failure)
  /-- The file is no TOML document, or a setting in it has a value of the wrong kind. -/
  | malformed
  /-- A limit does not fit in an integer of the file. -/
  | outOfRange
  | unknownKey (key : String)
  | invalidValue (key reason : String)
deriving DecidableEq, Repr

namespace SettingsError

/-- What is wrong with the file. -/
def reason : SettingsError → String
  | unreadable failure => "failed to read config file: " ++ failure.message
  | unwritable failure => "failed to write config file: " ++ failure.message
  | malformed => "failed to parse config file: invalid document"
  | outOfRange => "failed to serialize config: out-of-range value for u64 type"
  | unknownKey key => key
  | invalidValue _ reason => reason

/-- What a user is told. -/
def message (e : SettingsError) : String :=
  match e with
  | unreadable _ | unwritable _ => "Error: " ++ e.reason
  | malformed | outOfRange => "Parse error: " ++ e.reason
  | unknownKey key => "invalid key: '" ++ key ++ "' is not a valid configuration key."
  | invalidValue key reason => "invalid value for '" ++ key ++ "': " ++ reason

/-- The cause with its fields by name. -/
def debug (e : SettingsError) : String :=
  match e with
  | unreadable _ | unwritable _ => "Generic(" ++ Quoted.quoted e.reason ++ ")"
  | malformed | outOfRange => "ParseError(" ++ Quoted.quoted e.reason ++ ")"
  | unknownKey key => "InvalidKey(" ++ Quoted.quoted key ++ ")"
  | invalidValue key reason =>
    "InvalidValue \x7b key: " ++ Quoted.quoted key ++ ", reason: " ++ Quoted.quoted reason ++
      " \x7d"

end SettingsError

namespace Settings

/-- The names of the settings. -/
def strictKey : String := "strict_opcodes"
def stackKey : String := "stack_limit"
def memoryKey : String := "memory_limit"
def stepKey : String := "step_limit"

/-- The policy of a run under these settings. -/
def toPolicy (s : Settings) : Policy where
  strict := s.strictOpcodes
  stackLimit := s.stackLimit
  memoryLimit := s.memoryLimit
  stepLimit := s.stepLimit

/-- The text of a switch. -/
def switchText (b : Bool) : String := if b then "true" else "false"

/-- The settings with their fields by name. -/
def debug (s : Settings) : String :=
  "Configuration \x7b strict_opcodes: " ++ switchText s.strictOpcodes ++
    ", stack_limit: " ++ Policy.debugLimit s.stackLimit ++ ", memory_limit: " ++
    Policy.debugLimit s.memoryLimit ++ ", step_limit: " ++ Policy.debugLimit s.stepLimit ++ " \x7d"

end Settings

end WordMachine
