import WordMachine.Listing.Request
import WordMachine.Proofs.Hex.RoundTrip
import WordMachine.Proofs.Machine.Steps

/-! # Listings and logs

The listing of code and a log of its execution cut the code into the same instructions.

* **Two counters.** A listing moves from line to line by the bytes that the code has; a machine
  moves by the bytes that an instruction should have, and so may overshoot the end of the code.
  `remaining` gives the lines from an offset on, whether or not there is code at that offset, and
  both counters agree on it (`remaining_eq`).
* **Lock step.** What a log holds, and what remains to be executed, are together what remained to
  be listed (`Steps.lines`). -/

namespace WordMachine

open Machine

namespace Listing.Line

/-- The line about a byte at an offset of code. -/
def ofByteAt (code : Bytes) (offset : Nat) (byte : UInt8) : Line :=
  ⟨offset, byte, (code.drop (offset + 1)).take (Opcode.immediateOfByte byte)⟩

/-- The lines of code from an offset on. -/
def remaining (code : Bytes) (offset : Nat) : List Line := ofCodeAt offset (code.drop offset)

theorem remaining_of_le {code : Bytes} {offset : Nat} (h : code.length ≤ offset) :
    remaining code offset = [] := by
  rw [remaining, List.drop_of_length_le h, ofCodeAt]

/-- After a line the listing goes on behind all the bytes that the instruction should have. -/
theorem remaining_eq {code : Bytes} {offset : Nat} {byte : UInt8}
    (hbyte : code[offset]? = some byte) :
    remaining code offset =
      ofByteAt code offset byte ::
        remaining code (offset + 1 + Opcode.immediateOfByte byte) := by
  obtain ⟨hlt, hget⟩ := List.getElem?_eq_some_iff.1 hbyte
  rw [remaining, List.drop_eq_getElem_cons hlt, hget, ofCodeAt]
  refine congrArg (ofByteAt code offset byte :: ·) ?_
  rw [List.drop_drop, remaining]
  by_cases h : offset + 1 + Opcode.immediateOfByte byte ≤ code.length
  · have hlen : (bytes ⟨offset, byte, (code.drop (offset + 1)).take
        (Opcode.immediateOfByte byte)⟩).length = 1 + Opcode.immediateOfByte byte := by
      simp only [bytes, List.length_cons, List.length_take, List.length_drop]
      omega
    rw [hlen, Nat.add_assoc]
  · -- The instruction is cut short: the two offsets differ, but nothing is left at either.
    have hnone : code.drop (offset + 1 + Opcode.immediateOfByte byte) = [] :=
      List.drop_of_length_le (by omega)
    rw [hnone]
    simp only [ofCodeAt]

end Listing.Line

namespace Machine

open Listing

/-- The line that code has about an instruction that was executed. -/
def lineOf (code : Bytes) (s : State) : Line :=
  .ofByteAt code s.instruction.offset s.instruction.opcode

theorem lineOf_entry (m : Machine) (byte : UInt8) :
    lineOf m.code (m.entry byte) = .ofByteAt m.code m.pc byte := by
  simp [lineOf, entry]

variable [Host]

/-- What was executed and what remains are what remained before. -/
theorem Steps.lines {m last : Machine} {states : List State} (h : Steps m states last) :
    Line.remaining m.code m.pc =
      states.map (lineOf m.code) ++ Line.remaining m.code last.pc := by
  induction h with
  | refl m => rfl
  | step hs _ ih =>
    obtain ⟨byte, hbyte, -, rfl, rfl⟩ := step_eq_some_iff.1 hs
    rw [next_code, next_pc] at ih
    rw [Line.remaining_eq hbyte, ih, List.map_cons, lineOf_entry]
    rfl

end Machine

end WordMachine
