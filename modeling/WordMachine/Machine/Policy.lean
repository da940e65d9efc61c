import WordMachine.Text.Numeral

/-! # Execution policies

What a machine refuses: bytes that name no instruction, stacks and memories that grow too large, and
runs that take too long. The default policy refuses nothing. -/

namespace WordMachine

/-- The guards under which a machine executes. -/
structure Policy where
  /-- Whether a byte that names no instruction is a fault; otherwise it is skipped. -/
  strict : Bool := false
  /-- The largest number of words on the stack. -/
  stackLimit : Option Nat := none
  /-- The largest number of bytes in memory. -/
  memoryLimit : Option Nat := none
  /-- The largest number of steps of a run. -/
  stepLimit : Option Nat := none
deriving DecidableEq, Repr

namespace Policy

/-- An optional number in the form that diagnostic values use. -/
def debugLimit : Option Nat → String
  | none => "None"
  | some n => "Some(" ++ Numeral.decimal n ++ ")"

/-- The policy with its fields by name. -/
def debug (p : Policy) : String :=
  "ExecutionConfig \x7b opcode_policy: " ++ (if p.strict then "Strict" else "Lenient") ++
    ", stack_limit: " ++ debugLimit p.stackLimit ++ ", memory_limit: " ++
    debugLimit p.memoryLimit ++ ", step_limit: " ++ debugLimit p.stepLimit ++ " \x7d"

end Policy

end WordMachine
