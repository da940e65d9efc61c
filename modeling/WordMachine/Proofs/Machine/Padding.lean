import WordMachine.Proofs.Listing.Alignment
import WordMachine.Proofs.Machine.Composition
import WordMachine.Proofs.Machine.Drivers

/-! # Zeros behind code

Code runs as if zeros stood behind it, so putting them there changes nothing.

* **What is read.** Only an immediate can reach past the end of the code, and it finds zeros there
  either way (`codeAt_padded`). So a run over padded code goes the way of the run over the code.
* **Where a run ends.** A run that reports ends behind all the bytes that its last instruction
  should have. `Listing.missing` counts those that the code does not have (`pc_of_run`).
* **What is left.** The zeros behind an instruction that is now complete name no instruction
  (`run_of_unknown`). -/

namespace WordMachine

/-- Only a push has bytes that belong to it. -/
theorem Opcode.exists_push_of_immediate {byte : UInt8} (h : immediateOfByte byte ≠ 0) :
    ∃ width, ofByte? byte = some (push width) ∧ immediateOfByte byte = width.val := by
  cases hop : ofByte? byte with
  | none => simp [immediateOfByte, hop] at h
  | some op =>
    rw [immediateOfByte_of_ofByte? hop] at h ⊢
    cases op with
    | push width => exact ⟨width, rfl, rfl⟩
    | _ => exact absurd rfl h

namespace Listing

/-- The number of bytes that a line lacks. -/
def Line.missing (l : Line) : Nat := Opcode.immediateOfByte l.opcode - l.immediate.length

/-- The number of bytes that the last instruction of code lacks, decoding from an offset on. -/
def missing (code : Bytes) (offset : Nat) : Nat :=
  (Line.remaining code offset).getLast?.elim 0 Line.missing

/-- The code ends in a push that lacks a number of bytes. -/
def EndsShort (code : Bytes) (count : Nat) : Prop :=
  ∃ line width, (Line.ofCode code).getLast? = some line ∧
    Opcode.ofByte? line.opcode = some (.push width) ∧ line.immediate.length + count = width.val

theorem missing_of_le {code : Bytes} {offset : Nat} (h : code.length ≤ offset) :
    missing code offset = 0 := by
  rw [missing, Line.remaining_of_le h]
  rfl

/-- What the last instruction lacks is seen from every instruction before it. -/
theorem missing_eq {code : Bytes} {offset : Nat} {byte : UInt8}
    (hbyte : code[offset]? = some byte) :
    missing code offset =
      if code.length ≤ offset + 1 + Opcode.immediateOfByte byte then
        offset + 1 + Opcode.immediateOfByte byte - code.length
      else missing code (offset + 1 + Opcode.immediateOfByte byte) := by
  have hlt : offset < code.length := (List.getElem?_eq_some_iff.1 hbyte).1
  rw [missing, Line.remaining_eq hbyte]
  split
  case isTrue hlast =>
    rw [Line.remaining_of_le hlast]
    simp only [List.getLast?_singleton, Option.elim_some, Line.missing, Line.ofByteAt,
      List.length_take, List.length_drop]
    omega
  case isFalse hmore =>
    -- There is an instruction behind this one, so the last one is among those behind.
    have hnext := List.getElem?_eq_getElem (Nat.lt_of_not_le hmore)
    rw [missing, Line.remaining_eq hnext, List.getLast?_cons_cons]

/-- From an offset on, the code ends in a push that lacks a number of bytes. -/
def EndsShortFrom (code : Bytes) (offset count : Nat) : Prop :=
  ∃ line width, (Line.remaining code offset).getLast? = some line ∧
    Opcode.ofByte? line.opcode = some (.push width) ∧ line.immediate.length + count = width.val

/-- Only a push can lack bytes. -/
theorem missing_eq_iff_from {code : Bytes} {offset count : Nat} (hcount : 0 < count) :
    missing code offset = count ↔ EndsShortFrom code offset count := by
  unfold missing EndsShortFrom
  cases (Line.remaining code offset).getLast? with
  | none => simp; omega
  | some line =>
    simp only [Option.elim_some, Option.some.injEq, exists_and_left, exists_eq_left', Line.missing]
    constructor
    · intro h
      have hsome : Opcode.immediateOfByte line.opcode ≠ 0 := by omega
      obtain ⟨width, hop, hwidth⟩ := Opcode.exists_push_of_immediate hsome
      exact ⟨width, hop, by omega⟩
    · rintro ⟨width, hop, hlen⟩
      rw [Opcode.immediateOfByte_of_ofByte? hop, Opcode.immediate]
      omega

theorem missing_eq_iff {code : Bytes} {count : Nat} (hcount : 0 < count) :
    missing code 0 = count ↔ EndsShort code count :=
  missing_eq_iff_from hcount

/-- An instruction lacks no more bytes than the widest push has. -/
theorem missing_le (code : Bytes) (offset : Nat) : missing code offset ≤ 32 := by
  unfold missing
  cases (Line.remaining code offset).getLast? with
  | none => exact Nat.zero_le 32
  | some line => exact Nat.le_trans (Nat.sub_le _ _) (Opcode.immediateOfByte_le line.opcode)

end Listing

namespace Machine

/-- The machine with zeros behind its code. -/
def padded (m : Machine) (n : Nat) : Machine := m.before (List.replicate n 0)

/-- Past the end of the code there were zeros already. -/
theorem codeAt_padded (m : Machine) (n i : Nat) : (m.padded n).codeAt i = m.codeAt i := by
  simp only [codeAt, padded, before, List.getD_eq_getElem?_getD, List.getElem?_append,
    List.getElem?_replicate]
  split
  · rfl
  · rename_i h
    rw [List.getElem?_eq_none (Nat.le_of_not_lt h)]
    split <;> rfl

section

variable [Host]

/-- A run that reports ends behind the bytes that its last instruction should have. -/
theorem pc_of_run {m left : Machine} {r : Report} (hpc : m.pc ≤ m.code.length)
    (h : m.run = .ok r left) : left.pc = m.code.length + Listing.missing m.code m.pc := by
  induction m using code_induction with
  | finished m hend =>
    rw [run_of_finished hend] at h
    cases h
    rw [Listing.missing_of_le hend]
    omega
  | next m byte hbyte ih =>
    obtain ⟨-, -, hrest⟩ := (run_eq_ok_iff hbyte).1 h
    rw [next_code, next_pc] at ih
    rw [Listing.missing_eq hbyte]
    split
    case isTrue hlast =>
      have hend : (m.next byte).code.length ≤ (m.next byte).pc := by
        rw [next_code, next_pc]
        exact hlast
      rw [run_of_finished hend] at hrest
      cases hrest
      rw [next_pc]
      omega
    case isFalse hmore => exact ih (Nat.le_of_not_le hmore) hrest

/-- A lenient run over bytes that name no instruction passes them one by one. -/
theorem run_of_unknown {m : Machine} (hlenient : m.policy.strict = false)
    (hfree : m.policy.stepLimit = none) (hpc : m.pc ≤ m.code.length)
    (hunknown : ∀ byte ∈ m.code.drop m.pc, Opcode.ofByte? byte = none) :
    ∃ left, m.run = .ok
      { m.report with pc := m.code.length, steps := m.steps + (m.code.length - m.pc) } left := by
  induction m using code_induction with
  | finished m hend =>
    have hat : m.code.length = m.pc := Nat.le_antisymm hend hpc
    refine ⟨m, (run_of_finished hend).trans ?_⟩
    simp [report, hat]
  | next m byte hbyte ih =>
    obtain ⟨hlt, hget⟩ := List.getElem?_eq_some_iff.1 hbyte
    have hdrop : m.code.drop m.pc = byte :: m.code.drop (m.pc + 1) := by
      rw [List.drop_eq_getElem_cons hlt, hget]
    have hop : Opcode.ofByte? byte = none := hunknown byte (by simp [hdrop])
    rw [next_of_unknown hop] at ih
    obtain ⟨left, hrun⟩ := ih hlenient hfree hlt fun b hb => hunknown b (by
      rw [hdrop]
      exact List.mem_cons_of_mem _ hb)
    have hsteps : m.fetched.steps + (m.fetched.code.length - m.fetched.pc) =
        m.steps + (m.code.length - m.pc) := by
      simp only [fetched_steps, fetched_code, fetched_pc]
      omega
    rw [hsteps] at hrun
    exact ⟨left, (run_eq_of_unknown hbyte hop hlenient hfree).trans hrun⟩

/-- The zeros behind the end of a lenient run without budget are passed one by one. -/
theorem run_padded_of_past {m : Machine} {k : Nat} (hlenient : m.policy.strict = false)
    (hfree : m.policy.stepLimit = none) (hpast : m.code.length ≤ m.pc)
    (hroom : m.pc ≤ m.code.length + k) :
    ∃ left, (m.padded k).run = .ok
      { m.report with
        pc := m.code.length + k
        steps := m.steps + (m.code.length + k - m.pc) } left := by
  have hlength : (m.padded k).code.length = m.code.length + k := by simp [padded, before]
  have hunknown : ∀ byte ∈ (m.padded k).code.drop (m.padded k).pc, Opcode.ofByte? byte = none := by
    intro byte hmem
    have hdrop : (m.padded k).code.drop (m.padded k).pc =
        (List.replicate k 0).drop (m.pc - m.code.length) := by
      simp only [padded, before, List.drop_append, List.drop_of_length_le hpast, List.nil_append]
    rw [hdrop] at hmem
    rw [List.eq_of_mem_replicate (List.mem_of_mem_drop hmem)]
    rfl
  obtain ⟨left, hrun⟩ := run_of_unknown (m := m.padded k) hlenient hfree (hlength ▸ hroom) hunknown
  rw [hlength] at hrun
  exact ⟨left, hrun⟩

/-- Code runs as it does with zeros behind it. A run that reports ends behind the code by as many
bytes as a push at its end lacks. With that many zeros in their place the report is the same. With
more, a lenient run without budget passes the zeros that are left and changes no word and no byte.
A run that fails does so before any number of zeros. -/
theorem run_zero_extended (code : Bytes) (p : Policy) :
    (∀ r left, (load code p).run = .ok r left →
      ∃ missing, r.pc = code.length + missing ∧
        (∀ count, 0 < count → (missing = count ↔ Listing.EndsShort code count)) ∧
        (load (code ++ List.replicate missing 0) p).run =
          .ok r { left with code := code ++ List.replicate missing 0 } ∧
        (p.strict = false → p.stepLimit = none → ∀ k, missing ≤ k →
          ∃ r' left', (load (code ++ List.replicate k 0) p).run = .ok r' left' ∧
            r'.stack = r.stack ∧ r'.memory = r.memory ∧ r'.pc = code.length + k ∧
            r'.steps = r.steps + (k - missing))) ∧
      ∀ fault left k, (load code p).run = .error fault left →
        (load (code ++ List.replicate k 0) p).run =
          .error fault { left with code := code ++ List.replicate k 0 } := by
  refine ⟨fun r left h => ?_, fun fault left k h => ?_⟩
  · obtain ⟨states, hsteps, -, rfl⟩ := exists_steps_of_run h
    obtain ⟨hcode, hpolicy, -⟩ := hsteps.frame
    have hcode : left.code = code := hcode
    have hpolicy : left.policy = p := hpolicy
    have hpc : left.pc = code.length + Listing.missing code 0 := pc_of_run (Nat.zero_le _) h
    have hrun : ∀ k, (load (code ++ List.replicate k 0) p).run = (left.padded k).run :=
      fun k => run_before_of_same _ h fun i _ => codeAt_padded _ k i
    refine ⟨Listing.missing code 0, hpc, fun count => Listing.missing_eq_iff, ?_, ?_⟩
    · have hend : (left.padded (Listing.missing code 0)).code.length ≤ left.pc := by
        simp [padded, before, hcode, hpc]
      rw [hrun, run_of_finished hend, padded, before, hcode]
      rfl
    · intro hlenient hfree k hk
      rw [← hpolicy] at hlenient hfree
      have hpast : left.code.length ≤ left.pc ∧ left.pc ≤ left.code.length + k := by
        rw [hcode]
        omega
      obtain ⟨left', hzeros⟩ := run_padded_of_past hlenient hfree hpast.1 hpast.2
      refine ⟨_, left', (hrun k).trans hzeros, rfl, rfl, by rw [hcode], ?_⟩
      simp only [report, hcode]
      omega
  · have hcode : left.code = code := code_of_run_error h
    have hfail := run_before_of_error (List.replicate k 0) h
    rw [before, before, hcode] at hfail
    exact hfail

end

/-- A push of two bytes that lacks one. -/
theorem run_zero_extended_cut_short :
    ∃ left, (load [0x61, 0xab, 0x00]).run = .ok ⟨[0xab00#256], [], 3, 1⟩ left := by
  let after : Machine := { load [0x61, 0xab] with stack := [0xab00#256], pc := 3, steps := 1 }
  have hstep : (load [0x61, 0xab]).step =
      .ok (some ⟨⟨0, 0x61, [], [0xab00#256]⟩, [0xab00#256], {}⟩) after := rfl
  have hrun : (load [0x61, 0xab]).run = .ok ⟨[0xab00#256], [], 3, 1⟩ after :=
    (run_eq_ok_iff_steps rfl).2 ⟨_, .step hstep (.refl after), rfl, rfl⟩
  obtain ⟨missing, hpc, -, hsame, -⟩ := (run_zero_extended [0x61, 0xab] {}).1 _ _ hrun
  have hone : missing = 1 := by
    have hpc : 3 = 2 + missing := hpc
    omega
  subst hone
  exact ⟨_, hsame⟩

end Machine

end WordMachine
