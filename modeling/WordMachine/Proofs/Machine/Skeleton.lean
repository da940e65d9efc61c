import WordMachine.Proofs.Listing.Alignment
import WordMachine.Proofs.Machine.Faults
import WordMachine.Proofs.Machine.Replay

/-! # Skeletons

How deep the stack is depends on which instructions the code has, not on the words that they work
on.

* **Skeleton.** `skeleton` lists the instructions of code with their offsets, without the bytes of
  immediates. A log follows it (`Steps.skeleton_eq`).
* **Depth.** `depthBefore` adds up what the instructions of a skeleton put on the stack and take
  from it. That is the depth of every machine that comes so far (`Steps.depth`), and it alone
  decides on underflow and overflow (`Steps.underflow_iff`, `Steps.overflow_iff`). -/

namespace WordMachine

/-- The number of words by which an instruction makes the stack deeper. -/
def Opcode.gainOfByte (byte : UInt8) : Int := (outputsOfByte byte : Int) - inputsOfByte byte

/-- The instructions of code from an offset on, in the order in which they are decoded. -/
def skeleton (code : Bytes) (offset : Nat) : List (Nat × UInt8) :=
  (Listing.Line.remaining code offset).map fun line => (line.offset, line.opcode)

/-- The depth before the instruction with an index, if all those before it have passed: the depth at
the start and what they gain, added up. -/
def depthBefore (depth : Nat) (instructions : List (Nat × UInt8)) (index : Nat) : Int :=
  (instructions.take index).foldl (fun sum i => sum + Opcode.gainOfByte i.2) depth

theorem skeleton_eq {code : Bytes} {offset : Nat} {byte : UInt8}
    (hbyte : code[offset]? = some byte) :
    skeleton code offset =
      (offset, byte) :: skeleton code (offset + 1 + Opcode.immediateOfByte byte) := by
  rw [skeleton, Listing.Line.remaining_eq hbyte]
  rfl

/-- The first instruction from an offset on is the byte at that offset. -/
theorem head?_skeleton (code : Bytes) (offset : Nat) :
    (skeleton code offset).head? = code[offset]?.map (offset, ·) := by
  cases hbyte : code[offset]? with
  | none =>
    rw [skeleton, Listing.Line.remaining_of_le (List.getElem?_eq_none_iff.1 hbyte)]
    rfl
  | some byte =>
    rw [skeleton_eq hbyte]
    rfl

/-- The first instruction makes the stack deeper for all others. -/
theorem depthBefore_cons {depth after index offset : Nat} {instructions : List (Nat × UInt8)}
    {byte : UInt8} (h : (after : Int) = depth + Opcode.gainOfByte byte) :
    depthBefore depth ((offset, byte) :: instructions) (index + 1) =
      depthBefore after instructions index := by
  simp only [depthBefore, List.take_succ_cons, List.foldl_cons, h]

/-- Each instruction adds what it gains. -/
theorem depthBefore_succ {depth index offset : Nat} {instructions : List (Nat × UInt8)}
    {byte : UInt8} (h : instructions[index]? = some (offset, byte)) :
    depthBefore depth instructions (index + 1) =
      depthBefore depth instructions index + Opcode.gainOfByte byte := by
  rw [depthBefore, depthBefore, List.take_add_one, h, List.foldl_append]
  rfl

namespace Machine

section

variable [Host]

/-- A log shows the first instructions of the skeleton, and the rest of it remains. -/
theorem Steps.skeleton_eq {m last : Machine} {states : List State} (h : Steps m states last) :
    skeleton m.code m.pc =
      states.map (fun s => (s.instruction.offset, s.instruction.opcode)) ++
        skeleton m.code last.pc := by
  rw [skeleton, h.lines, List.map_append, List.map_map]
  rfl

/-- A byte that passes makes the stack deeper by what it gains. -/
theorem length_stack_next {m : Machine} {byte : UInt8} (h : m.faultOf byte = none) :
    ((m.next byte).stack.length : Int) = m.stack.length + Opcode.gainOfByte byte := by
  rw [Opcode.gainOfByte, Opcode.outputsOfByte, Opcode.inputsOfByte]
  cases hop : Opcode.ofByte? byte with
  | none =>
    rw [next_of_unknown hop]
    simp
  | some op =>
    have hargs : op.inputs ≤ m.stack.length := inputs_le_of_pass hop h
    rw [length_next_stack hop hargs]
    simp
    omega

/-- The depth after a log is that of the skeleton. -/
theorem Steps.depth {m last : Machine} {states : List State} (h : Steps m states last) :
    (last.stack.length : Int) =
      depthBefore m.stack.length (skeleton m.code m.pc) states.length := by
  induction h with
  | refl m => simp [depthBefore]
  | step hs _ ih =>
    obtain ⟨byte, hbyte, hfault, -, rfl⟩ := step_eq_some_iff.1 hs
    rw [next_code, next_pc] at ih
    rw [WordMachine.skeleton_eq hbyte, List.length_cons, depthBefore_cons (length_stack_next hfault)]
    exact ih

/-- The instruction after a log is the byte at the pointer. -/
theorem Steps.getElem?_skeleton {m last : Machine} {states : List State}
    (h : Steps m states last) :
    (skeleton m.code m.pc)[states.length]? = last.code[last.pc]?.map (last.pc, ·) := by
  rw [h.skeleton_eq, h.frame.1, List.getElem?_append_right (by simp), ← head?_skeleton,
    List.head?_eq_getElem?]
  simp

/-- A step after a log underflows where the depth of the skeleton is too small. -/
theorem Steps.underflow_iff {m last : Machine} {states : List State} (h : Steps m states last)
    {name : String} {required available : Nat} :
    (∃ left, last.step = .error (.stackUnderflow name required available) left) ↔
      ∃ offset byte op, (skeleton m.code m.pc)[states.length]? = some (offset, byte) ∧
        Opcode.ofByte? byte = some op ∧
        depthBefore m.stack.length (skeleton m.code m.pc) states.length < op.inputs ∧
        name = op.name ∧ required = op.inputs ∧
        (available : Int) = depthBefore m.stack.length (skeleton m.code m.pc) states.length := by
  rw [step_underflow_iff, h.getElem?_skeleton, ← h.depth]
  constructor
  · rintro ⟨byte, op, hbyte, hop, hlt, hname, hrequired, havailable⟩
    refine ⟨last.pc, byte, op, ?_, hop, by omega, hname, hrequired, by omega⟩
    rw [hbyte]
    rfl
  · rintro ⟨offset, byte, op, hat, hop, hlt, hname, hrequired, havailable⟩
    obtain ⟨byte', hbyte, heq⟩ := Option.map_eq_some_iff.1 hat
    cases heq
    exact ⟨byte, op, hbyte, hop, by omega, hname, hrequired, by omega⟩

/-- A step after a log overflows where the skeleton has the operands and becomes too deep. -/
theorem Steps.overflow_iff {m last : Machine} {states : List State} (h : Steps m states last)
    {limit : Nat} :
    (∃ left, last.step = .error (.stackOverflow limit) left) ↔
      ∃ offset byte op, (skeleton m.code m.pc)[states.length]? = some (offset, byte) ∧
        Opcode.ofByte? byte = some op ∧
        op.inputs ≤ depthBefore m.stack.length (skeleton m.code m.pc) states.length ∧
        m.policy.stackLimit = some limit ∧
        limit < depthBefore m.stack.length (skeleton m.code m.pc) (states.length + 1) := by
  have hgain : ∀ byte op, Opcode.ofByte? byte = some op →
      Opcode.gainOfByte byte = (op.outputs : Int) - op.inputs := by
    intro byte op hop
    simp [Opcode.gainOfByte, Opcode.outputsOfByte, Opcode.inputsOfByte, hop]
  rw [step_overflow_iff, h.frame.2.1]
  constructor
  · rintro ⟨byte, op, hbyte, hop, hargs, hlimit, hlt⟩
    have hat : (skeleton m.code m.pc)[states.length]? = some (last.pc, byte) := by
      rw [h.getElem?_skeleton, hbyte]
      rfl
    refine ⟨last.pc, byte, op, hat, hop, ?_, hlimit, ?_⟩
    · rw [← h.depth]
      omega
    · rw [depthBefore_succ hat, ← h.depth, hgain byte op hop]
      omega
  · rintro ⟨offset, byte, op, hat, hop, hargs, hlimit, hlt⟩
    rw [depthBefore_succ hat, ← h.depth, hgain byte op hop] at hlt
    rw [← h.depth] at hargs
    rw [h.getElem?_skeleton] at hat
    obtain ⟨byte', hbyte, heq⟩ := Option.map_eq_some_iff.1 hat
    cases heq
    exact ⟨byte, op, hbyte, hop, by omega, hlimit, by omega⟩

end

end Machine

end WordMachine
