import WordMachine.Log.Record
import WordMachine.Machine.Run

/-! # What a run notes

The beginning of a run, every byte that it skips, and how it ended. A run that is stopped because it
has used up its steps notes no end. -/

namespace WordMachine.Machine

/-- The part of the program that runs machines. -/
def logTarget : String := "minievm_vm::core::vm::core"

/-- A note about a run. -/
def note (message : String) (fields : List (String × Log.Value)) : Log.Record :=
  { level := .debug, target := logTarget, message, fields }

/-- The note about a byte that is skipped. -/
def skipNote (offset : Nat) (byte : UInt8) : Log.Record :=
  note "skipping unknown opcode"
    [("pc", .number offset),
      ("opcode", .text ("0x" ++ String.ofList (Numeral.padded 16 2 byte.toNat)))]

/-- The notes about the end of a run. -/
def endNotes : Attempt Report → List Log.Record
  | .ok r left =>
    [note "execution finished"
      [("steps", .number r.steps), ("stack_size", .number left.stack.length),
        ("mem_size", .number left.memory.size)]]
  | .error (.stepLimitExceeded _) _ => []
  | .error fault left => [note ("execution failed: " ++ fault.message) [("pc", .number left.pc)]]

/-- What is noted while a machine runs. -/
def notices [Host] (m : Machine) : List Log.Record :=
  note "running bytecode" [("size", .number m.code.length)] ::
    (m.skipped.map fun x => skipNote x.1 x.2) ++ endNotes m.run

end WordMachine.Machine
