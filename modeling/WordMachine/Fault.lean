import WordMachine.Word

/-! # Faults

The causes that end the execution of a machine, with their two written forms: `message`, the
sentence shown to a user, and `debug`, the form with named fields that a failing program prints. -/

namespace WordMachine

/-- Why an instruction or a run failed. -/
inductive Fault where
  /-- An operation needs more operands than the stack holds. -/
  | stackUnderflow (opcode : String) (required available : Nat)
  /-- An instruction would leave more words on the stack than the limit allows. -/
  | stackOverflow (limit : Nat)
  /-- A byte names no instruction, and the policy refuses such bytes. -/
  | invalidOpcode (opcode : UInt8) (offset : Nat)
  /-- A memory range does not fit the 64-bit address space. -/
  | invalidMemoryOffset (offset : Word)
  /-- A store needs more memory than the limit allows. -/
  | memoryLimitExceeded (required limit : Nat)
  /-- The host refuses to grow the memory. -/
  | outOfMemory (required : Nat)
  /-- A run used up its budget of steps before the end of the code. -/
  | stepLimitExceeded (limit : Nat)
deriving DecidableEq, Repr

namespace Fault

open Numeral (decimal)

/-- What a user is told. -/
def message : Fault → String
  | stackUnderflow opcode required available =>
    "stack underflow: " ++ opcode ++ " requires " ++ decimal required ++ " operand(s), found " ++
      decimal available
  | stackOverflow limit => "stack overflow (max " ++ decimal limit ++ ")"
  | invalidOpcode opcode offset =>
    "invalid opcode 0x" ++ String.ofList (Numeral.padded 16 2 opcode.toNat) ++ " at offset " ++
      decimal offset
  | invalidMemoryOffset offset => "invalid memory offset: " ++ offset.compact
  | memoryLimitExceeded required limit =>
    "memory limit exceeded: " ++ decimal required ++ " bytes required, limit is " ++ decimal limit
  | outOfMemory required => "failed to allocate " ++ decimal required ++ " bytes of memory"
  | stepLimitExceeded limit => "step limit of " ++ decimal limit ++ " exceeded"

/-- The cause with its fields by name; numbers and words are decimal. -/
def debug : Fault → String
  | stackUnderflow opcode required available =>
    "StackUnderflow \x7b opcode: \"" ++ opcode ++ "\", required: " ++ decimal required ++
      ", available: " ++ decimal available ++ " \x7d"
  | stackOverflow limit => "StackOverflow \x7b limit: " ++ decimal limit ++ " \x7d"
  | invalidOpcode opcode offset =>
    "InvalidOpcode \x7b opcode: " ++ decimal opcode.toNat ++ ", offset: " ++ decimal offset ++
      " \x7d"
  | invalidMemoryOffset offset => "InvalidMemoryOffset(" ++ decimal offset.toNat ++ ")"
  | memoryLimitExceeded required limit =>
    "MemoryLimitExceeded \x7b required: " ++ decimal required ++ ", limit: " ++ decimal limit ++
      " \x7d"
  | outOfMemory required => "OutOfMemory \x7b required: " ++ decimal required ++ " \x7d"
  | stepLimitExceeded limit => "StepLimitExceeded(" ++ decimal limit ++ ")"

end Fault

end WordMachine
