import WordMachine.Proofs.Listing.Alignment
import WordMachine.Proofs.Machine.Faults

/-! # Code without unknown bytes

A byte that stands where an instruction starts and names none is passed over by a lenient policy,
and code does the same without it.

* **Sifting.** `Listing.sifted` keeps the lines of a listing that name an instruction, with all
  their bytes. An unknown line has one byte, so what is left out is counted by
  `Listing.unknownFrom` (`length_sifted`).
* **Lock step.** `Machine.Sifts` relates a machine to one whose code from the pointer on is the
  sifted code of the first. An unknown byte moves the first machine alone (`Sifts.skip`), any other
  byte moves both (`Sifts.next`): sifting neither cuts an immediate nor joins one with the bytes
  behind it.
* **Policies.** A strict run that meets no unknown byte is the lenient run (`run_strictly`). -/

namespace WordMachine

namespace Listing

/-- Whether a line is about an instruction. -/
def Line.isKnown (l : Line) : Bool := (Opcode.ofByte? l.opcode).isSome

/-- The code from an offset on without the bytes that name no instruction where one should
start. -/
def siftedFrom (code : Bytes) (offset : Nat) : Bytes :=
  ((Line.remaining code offset).filter Line.isKnown).flatMap Line.bytes

/-- Code without the bytes that name no instruction where one should start. -/
def sifted (code : Bytes) : Bytes := ((Line.ofCode code).filter Line.isKnown).flatMap Line.bytes

/-- The number of lines from an offset on that are about no instruction. -/
def unknownFrom (code : Bytes) (offset : Nat) : Nat :=
  (Line.remaining code offset).countP fun l => !l.isKnown

theorem siftedFrom_of_le {code : Bytes} {offset : Nat} (h : code.length ≤ offset) :
    siftedFrom code offset = [] := by
  rw [siftedFrom, Line.remaining_of_le h]
  rfl

theorem unknownFrom_of_le {code : Bytes} {offset : Nat} (h : code.length ≤ offset) :
    unknownFrom code offset = 0 := by
  rw [unknownFrom, Line.remaining_of_le h]
  rfl

/-- An unknown byte is left out. -/
theorem siftedFrom_of_unknown {code : Bytes} {offset : Nat} {byte : UInt8}
    (hbyte : code[offset]? = some byte) (hop : Opcode.ofByte? byte = none) :
    siftedFrom code offset = siftedFrom code (offset + 1) ∧
      unknownFrom code offset = unknownFrom code (offset + 1) + 1 := by
  have hwidth : Opcode.immediateOfByte byte = 0 := by simp [Opcode.immediateOfByte, hop]
  have hknown : (Line.ofByteAt code offset byte).isKnown = false := by
    simp [Line.isKnown, Line.ofByteAt, hop]
  rw [siftedFrom, unknownFrom, Line.remaining_eq hbyte, hwidth]
  exact ⟨by rw [List.filter_cons_of_neg (by simp [hknown])]; rfl,
    List.countP_cons_of_pos (by simp [hknown])⟩

/-- An instruction is kept with the bytes that belong to it. -/
theorem siftedFrom_of_known {code : Bytes} {offset : Nat} {byte : UInt8} {op : Opcode}
    (hbyte : code[offset]? = some byte) (hop : Opcode.ofByte? byte = some op) :
    siftedFrom code offset =
        byte :: ((code.drop (offset + 1)).take op.immediate ++
          siftedFrom code (offset + 1 + op.immediate)) ∧
      unknownFrom code offset = unknownFrom code (offset + 1 + op.immediate) := by
  have hwidth : Opcode.immediateOfByte byte = op.immediate :=
    Opcode.immediateOfByte_of_ofByte? hop
  have hknown : (Line.ofByteAt code offset byte).isKnown = true := by
    simp [Line.isKnown, Line.ofByteAt, hop]
  rw [siftedFrom, unknownFrom, Line.remaining_eq hbyte, hwidth]
  refine ⟨?_, List.countP_cons_of_neg (by simp [hknown])⟩
  rw [List.filter_cons_of_pos hknown, List.flatMap_cons, Line.ofByteAt, Line.bytes, hwidth]
  rfl

/-- What is left out are single bytes. -/
theorem length_sifted (code : Bytes) :
    (sifted code).length + unknownFrom code 0 = code.length := by
  have hlines : ∀ offset code, (((Line.ofCodeAt offset code).filter Line.isKnown).flatMap
      Line.bytes).length + (Line.ofCodeAt offset code).countP (fun l => !l.isKnown) =
        code.length := by
    intro offset code
    fun_induction Line.ofCodeAt offset code with
    | case1 => rfl
    | case2 offset byte rest width line ih =>
      rw [List.length_drop] at ih
      cases hop : Opcode.ofByte? byte with
      | none =>
        have hknown : line.isKnown = false := by simp [Line.isKnown, line, hop]
        have hwidth : width = 0 := by simp [width, Opcode.immediateOfByte, hop]
        rw [List.filter_cons_of_neg (by simp [hknown]), List.countP_cons_of_pos (by simp [hknown]),
          List.length_cons]
        omega
      | some op =>
        have hknown : line.isKnown = true := by simp [Line.isKnown, line, hop]
        have hlength : line.bytes.length = min width rest.length + 1 := by simp [line, Line.bytes]
        rw [List.filter_cons_of_pos hknown, List.countP_cons_of_neg (by simp [hknown]),
          List.flatMap_cons, List.length_append, List.length_cons]
        omega
  exact hlines 0 code

/-- Bytes of an immediate are kept, whatever they name. -/
example : sifted [0x0c, 0x61, 0x0c, 0x0d, 0x0e, 0x5f] = [0x61, 0x0c, 0x0d, 0x5f] := by cbv

end Listing

namespace Machine

/-- The machine under a policy that refuses unknown bytes. -/
def strictly (m : Machine) : Machine := { m with policy := { m.policy with strict := true } }

end Machine

namespace Attempt

/-- The outcome of a run, with the machine left behind under a policy that refuses unknown bytes. -/
def strictly : Attempt Report → Attempt Report
  | .ok r left => .ok r left.strictly
  | .error fault left => .error fault left.strictly

/-- Two runs end alike, the first with a number of steps more than the second: with the same stack
and memory, or with the same fault. -/
inductive EndsLike (extra : Nat) : Attempt Report → Attempt Report → Prop
  | ok {r r' : Report} {left left' : Machine} :
      r.stack = r'.stack → r.memory = r'.memory → r.steps = r'.steps + extra →
        EndsLike extra (.ok r left) (.ok r' left')
  | error {fault : Fault} {left left' : Machine} :
      left.stack = left'.stack → left.memory = left'.memory →
        EndsLike extra (.error fault left) (.error fault left')

end Attempt

namespace Machine

/-- A lenient machine without budget, and a machine that has before it what sifting leaves of the
code before the first one. They differ by a number of steps once the first has passed the unknown
bytes that are left. -/
structure Sifts (extra : Nat) (m m' : Machine) : Prop where
  code_eq : m'.code.drop m'.pc = Listing.siftedFrom m.code m.pc
  stack_eq : m'.stack = m.stack
  memory_eq : m'.memory = m.memory
  limit_eq : m'.policy.stackLimit = m.policy.stackLimit
  lenient : m.policy.strict = false
  free : m.policy.stepLimit = none
  free' : m'.policy.stepLimit = none
  steps_eq : m.steps + Listing.unknownFrom m.code m.pc = m'.steps + extra

/-- An immediate in front of other bytes is found again, if it is complete or there are none. -/
theorem take_drop_append {bs rest : Bytes} {n : Nat} (hle : bs.length ≤ n)
    (h : bs.length = n ∨ rest = []) :
    (bs ++ rest).take n = bs ∧ (bs ++ rest).drop n = rest := by
  rcases h with rfl | rfl
  · exact ⟨List.take_left, List.drop_left⟩
  · rw [List.append_nil]
    exact ⟨List.take_of_length_le hle, List.drop_of_length_le hle⟩

namespace Sifts

variable {extra : Nat} {m m' : Machine} {byte : UInt8}

/-- The second machine waits while the first passes an unknown byte. -/
theorem skip (h : Sifts extra m m') (hbyte : m.code[m.pc]? = some byte)
    (hop : Opcode.ofByte? byte = none) : Sifts extra (m.next byte) m' := by
  obtain ⟨hsifted, hcount⟩ := Listing.siftedFrom_of_unknown hbyte hop
  have hsteps := h.steps_eq
  rw [next_of_unknown hop]
  refine { h with code_eq := h.code_eq.trans hsifted, steps_eq := ?_ }
  rw [fetched_steps, fetched_code, fetched_pc]
  omega

/-- At an instruction both machines have the same byte before them, the same immediate behind it,
and behind that what is left of the code. -/
theorem code_known (h : Sifts extra m m') {op : Opcode} (hbyte : m.code[m.pc]? = some byte)
    (hop : Opcode.ofByte? byte = some op) :
    m'.code[m'.pc]? = some byte ∧
      (m'.code.drop (m'.pc + 1)).take op.immediate =
        (m.code.drop (m.pc + 1)).take op.immediate ∧
      m'.code.drop (m'.pc + 1 + op.immediate) =
        Listing.siftedFrom m.code (m.pc + 1 + op.immediate) := by
  have hsifted := h.code_eq.trans (Listing.siftedFrom_of_known hbyte hop).1
  have hhead : m'.code[m'.pc]? = (m'.code.drop m'.pc)[0]? := by rw [List.getElem?_drop]; rfl
  have hbehind : m'.code.drop (m'.pc + 1) = (m'.code.drop m'.pc).tail := List.tail_drop.symm
  have hrest : m'.code.drop (m'.pc + 1 + op.immediate) =
      (m'.code.drop (m'.pc + 1)).drop op.immediate := List.drop_drop.symm
  rw [hsifted, List.tail_cons] at hbehind
  -- Only the last immediate of the code can be incomplete, and nothing is left behind it.
  have hlast : ((m.code.drop (m.pc + 1)).take op.immediate).length = op.immediate ∨
      Listing.siftedFrom m.code (m.pc + 1 + op.immediate) = [] := by
    rcases Nat.lt_or_ge m.code.length (m.pc + 1 + op.immediate) with hcut | hfull
    · exact .inr (Listing.siftedFrom_of_le (Nat.le_of_lt hcut))
    · refine .inl ?_
      rw [List.length_take, List.length_drop]
      omega
  obtain ⟨htake, hdrop⟩ := take_drop_append (List.length_take_le _ _) hlast
  rw [hhead, hsifted, hrest, hbehind]
  exact ⟨rfl, htake, hdrop⟩

/-- Both machines do the same at an instruction. -/
theorem next (h : Sifts extra m m') {op : Opcode} (hbyte : m.code[m.pc]? = some byte)
    (hop : Opcode.ofByte? byte = some op) : Sifts extra (m.next byte) (m'.next byte) := by
  obtain ⟨-, himmediate, hrest⟩ := h.code_known hbyte hop
  have hwidth : Opcode.immediateOfByte byte = op.immediate :=
    Opcode.immediateOfByte_of_ofByte? hop
  have hfollowing : m'.following op = m.following op := by
    simp only [following, immediate, fetched, himmediate]
  have hoperands : m'.operands op = m.operands op := by simp only [operands, h.stack_eq]
  have hcount := (Listing.siftedFrom_of_known hbyte hop).2
  have hsteps := h.steps_eq
  exact
    { code_eq := by rw [next_code, next_pc, next_code, next_pc, hwidth, hrest]
      stack_eq := by
        rw [next_stack hop, next_stack hop, results, results, hfollowing, hoperands, h.stack_eq]
      memory_eq := by rw [next_memory hop, next_memory hop, hoperands, h.memory_eq]
      limit_eq := by rw [next_policy, next_policy, h.limit_eq]
      lenient := by rw [next_policy, h.lenient]
      free := by rw [next_policy, h.free]
      free' := by rw [next_policy, h.free']
      steps_eq := by
        rw [next_steps, next_code, next_pc, hwidth, next_steps]
        omega }

variable [Host]

theorem faultOf_eq (h : Sifts extra m m') {op : Opcode} (hop : Opcode.ofByte? byte = some op) :
    m'.faultOf byte = m.faultOf byte := by
  simp only [faultOf, hop, checkDepth, operands, h.stack_eq, h.memory_eq, h.limit_eq]

/-- The runs of both machines end alike. -/
theorem run (h : Sifts extra m m') : Attempt.EndsLike extra m.run m'.run := by
  induction m using code_induction generalizing m' with
  | finished m hend =>
    have hsteps := h.steps_eq
    rw [Listing.unknownFrom_of_le hend] at hsteps
    have hend' : m'.code.length ≤ m'.pc :=
      List.drop_eq_nil_iff.1 (h.code_eq.trans (Listing.siftedFrom_of_le hend))
    rw [run_of_finished hend, run_of_finished hend']
    refine .ok ?_ ?_ hsteps
    · simp only [report, h.stack_eq]
    · simp only [report, h.memory_eq]
  | next m byte hbyte ih =>
    cases hop : Opcode.ofByte? byte with
    | none =>
      rw [run_eq_of_unknown hbyte hop h.lenient h.free, ← next_of_unknown hop]
      exact ih (h.skip hbyte hop)
    | some op =>
      obtain ⟨hbyte', -, -⟩ := h.code_known hbyte hop
      rw [run_eq hbyte, run_eq hbyte', exhausted_of_no_limit h.free, exhausted_of_no_limit h.free',
        h.faultOf_eq hop]
      cases m.faultOf byte with
      | some fault =>
        refine .error ?_ h.memory_eq.symm
        simp only [stopped, h.stack_eq]
      | none => exact ih (h.next hbyte hop)

end Sifts

theorem next_strictly (m : Machine) (byte : UInt8) :
    m.strictly.next byte = (m.next byte).strictly := by
  unfold next
  cases Opcode.ofByte? byte <;> rfl

variable [Host]

/-- A policy that refuses unknown bytes ends a run at one, or is not felt. -/
theorem run_strictly (m : Machine) :
    (∃ byte offset left, m.strictly.run = .error (.invalidOpcode byte offset) left) ∨
      m.strictly.run = m.run.strictly := by
  induction m using code_induction with
  | finished m hend =>
    have hend' : m.strictly.code.length ≤ m.strictly.pc := hend
    rw [run_of_finished hend, run_of_finished hend']
    exact .inr rfl
  | next m byte hbyte ih =>
    have hbyte' : m.strictly.code[m.strictly.pc]? = some byte := hbyte
    have hbudget : m.strictly.exhausted = m.exhausted := rfl
    rw [run_eq hbyte', run_eq hbyte, hbudget]
    cases m.exhausted with
    | some limit => exact .inr rfl
    | none =>
      cases hop : Opcode.ofByte? byte with
      | none =>
        have hfault : m.strictly.faultOf byte = some (.invalidOpcode byte m.pc) := by
          simp [faultOf, hop, strictly]
        rw [hfault]
        exact .inl ⟨byte, m.pc, _, rfl⟩
      | some op =>
        have hfault : m.strictly.faultOf byte = m.faultOf byte := by
          simp only [faultOf, hop]
          rfl
        rw [hfault, next_strictly]
        cases m.faultOf byte with
        | some fault => exact .inr rfl
        | none => exact ih

/-- A lenient run refuses no byte. -/
theorem run_ne_invalidOpcode {m left : Machine} {byte : UInt8} {offset : Nat}
    (hlenient : m.policy.strict = false) : m.run ≠ .error (.invalidOpcode byte offset) left := by
  intro h
  obtain ⟨states, last, hsteps, ⟨-, -, limit, -, hfault⟩ | hstep⟩ := exists_steps_of_run_error h
  · cases hfault
  · obtain ⟨byte', -, hfault, -⟩ := step_eq_error_iff.1 hstep
    cases faultOf_eq_some_iff.1 hfault with
    | invalidOpcode hop hstrict =>
      rw [hsteps.frame.2.1, hlenient] at hstrict
      cases hstrict

/-- Bytes that name no instruction are no-ops under a lenient policy without budget: code without
those that stand where an instruction should start ends alike, by as many steps earlier as bytes
were left out. What is left of the code does the same under a strict policy, which finds nothing in
it to refuse. -/
theorem unknown_bytes_skipped (code : Bytes) (stackLimit memoryLimit : Option Nat) :
    let lenient : Policy := { stackLimit, memoryLimit }
    let strict : Policy := { lenient with strict := true }
    let sifted := Listing.sifted code
    Attempt.EndsLike (code.length - sifted.length) (load code lenient).run
        (load sifted lenient).run ∧
      (load sifted strict).run = (load sifted lenient).run.strictly ∧
      ∀ byte offset left, (load sifted strict).run ≠ .error (.invalidOpcode byte offset) left := by
  intro lenient strict sifted
  have hcount := Listing.length_sifted code
  have hextra : code.length - sifted.length = Listing.unknownFrom code 0 := by
    simp only [sifted]
    omega
  have hsifts : ∀ q : Policy, q.stackLimit = stackLimit → q.memoryLimit = memoryLimit →
      q.stepLimit = none →
        Sifts (code.length - sifted.length) (load code lenient) (load sifted q) := by
    intro q hstack hmemory hfree
    exact
      { code_eq := rfl
        stack_eq := rfl
        memory_eq := by simp [load, hmemory, lenient]
        limit_eq := hstack
        lenient := rfl
        free := rfl
        free' := hfree
        steps_eq := by
          rw [hextra]
          rfl }
  have hnone : ∀ byte offset left,
      (load sifted strict).run ≠ .error (.invalidOpcode byte offset) left := by
    intro byte offset left h
    have halike := (hsifts strict rfl rfl rfl).run
    rw [h] at halike
    generalize hrun : (load code lenient).run = outcome at halike
    cases halike
    exact run_ne_invalidOpcode rfl hrun
  refine ⟨(hsifts lenient rfl rfl rfl).run, ?_, hnone⟩
  rcases run_strictly (load sifted lenient) with ⟨byte, offset, left, h⟩ | h
  · exact absurd h (hnone byte offset left)
  · exact h

end Machine

end WordMachine
