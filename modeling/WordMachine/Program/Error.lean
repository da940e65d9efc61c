import WordMachine.Fault
import WordMachine.Listing.Request
import WordMachine.Settings.Basic

/-! # Why the program fails

A failure of one of the program's parts, with the part named. -/

namespace WordMachine

/-- Why a command fails. -/
inductive ProgramError where
  /-- The target of a run has no code. -/
  | input (cause : TargetError)
  | execution (fault : Fault)
  | config (cause : SettingsError)
  | listing (cause : Listing.Failed)
deriving DecidableEq, Repr

namespace ProgramError

/-- What a user is told. -/
def message : ProgramError → String
  | input cause => "Input error: " ++ cause.message
  | execution fault => "Execution error: " ++ fault.message
  | config cause => "Config error: " ++ cause.message
  | listing cause => "Disassemble error: " ++ cause.message

/-- The failure with its cause. -/
def debug : ProgramError → String
  | input cause => "InputError(" ++ cause.debug ++ ")"
  | execution fault => "ExecutionError(" ++ fault.debug ++ ")"
  | config cause => "ConfigError(" ++ cause.debug ++ ")"
  | listing cause => "DisassembleError(" ++ cause.debug ++ ")"

end ProgramError

end WordMachine
