import WordMachine.Proofs.Machine.Immediate
import WordMachine.Proofs.Machine.Steps

/-! # Code in sequence

What code put behind other code, or in front of it, changes about an execution.

* **Behind.** Code that follows is not seen until the pointer reaches it, unless the last push is
  cut short and reads its immediate from there. What counts is whether the code reads the same as
  far as the pointer gets (`next_before`, `run_before_of_same`).
* **In front.** Code that stands in front moves the pointer and every offset along, and changes
  nothing else (`run_behind`).

Together they run `a ++ b` as `a` and then `b` (`run_append`). -/

namespace WordMachine

/-- The fault with the offset that it names moved along. -/
def Fault.shift (n : Nat) : Fault → Fault
  | .invalidOpcode byte offset => .invalidOpcode byte (n + offset)
  | fault => fault

namespace Machine

/-- The machine with more code behind its own. -/
def before (m : Machine) (b : Bytes) : Machine := { m with code := m.code ++ b }

/-- The machine with more code in front of its own, the pointer moved along. -/
def behind (m : Machine) (a : Bytes) : Machine :=
  { m with code := a ++ m.code, pc := a.length + m.pc }

end Machine

/-- The outcome of a run with every pointer and offset in it moved behind other code. -/
def Attempt.behind (a : Bytes) : Attempt Report → Attempt Report
  | .ok r left => .ok { r with pc := a.length + r.pc } (left.behind a)
  | .error fault left => .error (fault.shift a.length) (left.behind a)

namespace Machine

/-! ### What a transition sees of other code -/

/-- Before its end code reads the same with more code behind it. -/
theorem codeAt_before_of_lt {m : Machine} {i : Nat} (b : Bytes) (h : i < m.code.length) :
    (m.before b).codeAt i = m.codeAt i := by
  simp only [codeAt, before, List.getD_eq_getElem?_getD, List.getElem?_append_left h]

/-- An instruction does the same with more code behind it, if its bytes read the same. -/
theorem next_before {m : Machine} {byte : UInt8} (b : Bytes)
    (h : ∀ i < (m.next byte).pc, (m.before b).codeAt i = m.codeAt i) :
    (m.before b).next byte = (m.next byte).before b := by
  rw [next_pc] at h
  unfold next
  cases hop : Opcode.ofByte? byte with
  | none => rfl
  | some op =>
    rw [Opcode.immediateOfByte_of_ofByte? hop] at h
    have hsame : (m.before b).following op = m.following op := by
      simp only [following, immediate_eq]
      refine congrArg Word.ofBytes (List.map_congr_left fun i hi => h (m.pc + 1 + i) ?_)
      have hi : i < op.immediate := List.mem_range.1 hi
      omega
    simp only [results, hsame]
    rfl

theorem next_behind (m : Machine) (byte : UInt8) (a : Bytes) :
    (m.behind a).next byte = (m.next byte).behind a := by
  have hdrop : (a ++ m.code).drop (a.length + m.pc + 1) = m.code.drop (m.pc + 1) := by
    rw [Nat.add_assoc]
    exact List.drop_length_add_append _
  have hsame : ∀ op, (m.behind a).following op = m.following op := by
    intro op
    simp only [following, immediate, behind, fetched, hdrop]
  unfold next
  cases Opcode.ofByte? byte with
  | none => simp [behind, fetched, Nat.add_assoc]
  | some op =>
    simp only [results, hsame]
    simp [behind, fetched, operands, Nat.add_assoc]

theorem stopped_behind (m : Machine) (fault : Fault) (a : Bytes) :
    (m.behind a).stopped (fault.shift a.length) = (m.stopped fault).behind a := by
  cases fault <;> rfl

variable [Host]

/-! ### Code behind -/

/-- A run with more code behind starts as the run without it. -/
theorem run_before_eq {m : Machine} {byte : UInt8} (hbyte : m.code[m.pc]? = some byte)
    (b : Bytes) :
    (m.before b).run =
      match m.exhausted with
      | some limit => .error (.stepLimitExceeded limit) (m.before b)
      | none =>
        match m.faultOf byte with
        | some fault => .error fault ((m.stopped fault).before b)
        | none => ((m.before b).next byte).run := by
  have hpc : m.pc < m.code.length := (List.getElem?_eq_some_iff.1 hbyte).1
  have hbyte' : (m.before b).code[(m.before b).pc]? = some byte :=
    (List.getElem?_append_left hpc).trans hbyte
  exact run_eq hbyte'

/-- A run that fails does so with more code behind its own, too. -/
theorem run_before_of_error {m left : Machine} {fault : Fault} (b : Bytes)
    (h : m.run = .error fault left) : (m.before b).run = .error fault (left.before b) := by
  induction m using code_induction with
  | finished m hend =>
    rw [run_of_finished hend] at h
    cases h
  | next m byte hbyte ih =>
    rw [run_eq hbyte] at h
    rw [run_before_eq hbyte]
    cases hbudget : m.exhausted with
    | some limit =>
      rw [hbudget] at h
      cases h
      rfl
    | none =>
      cases hfault : m.faultOf byte with
      | some f =>
        rw [hbudget, hfault] at h
        cases h
        rfl
      | none =>
        rw [hbudget, hfault] at h
        -- A push that is cut short ends the code, and so cannot be followed by a failure.
        have hinside : (m.next byte).pc < (m.next byte).code.length := pc_lt_of_run_error h
        rw [next_code] at hinside
        have hsame : ∀ i < (m.next byte).pc, (m.before b).codeAt i = m.codeAt i :=
          fun i hi => codeAt_before_of_lt b (Nat.lt_trans hi hinside)
        simp only [next_before b hsame]
        exact ih h

/-- A run is the first part of a run over more code that reads the same as far as the run gets. -/
theorem run_before_of_same {m left : Machine} {r : Report} (b : Bytes) (h : m.run = .ok r left)
    (hsame : ∀ i < left.pc, (m.before b).codeAt i = m.codeAt i) :
    (m.before b).run = (left.before b).run := by
  induction m using code_induction with
  | finished m hend =>
    rw [run_of_finished hend] at h
    cases h
    rfl
  | next m byte hbyte ih =>
    obtain ⟨hbudget, hfault, hrest⟩ := (run_eq_ok_iff hbyte).1 h
    obtain ⟨states, hsteps, -, -⟩ := exists_steps_of_run hrest
    have hbytes : ∀ i < (m.next byte).pc, (m.before b).codeAt i = m.codeAt i :=
      fun i hi => hsame i (Nat.lt_of_lt_of_le hi hsteps.pc_le)
    rw [run_before_eq hbyte, hbudget, hfault]
    simp only [next_before b hbytes]
    refine ih hrest fun i hi => ?_
    simp only [codeAt, before, next_code]
    exact hsame i hi

/-- A run that ends right behind its code is the first part of a run over any more code. -/
theorem run_before_of_ok {m left : Machine} {r : Report} (b : Bytes) (h : m.run = .ok r left)
    (hpc : left.pc = m.code.length) : (m.before b).run = (left.before b).run :=
  run_before_of_same b h fun _ hi => codeAt_before_of_lt b (hpc ▸ hi)

/-! ### Code in front -/

/-- The faults are the same, but for the offset of a byte that is refused. -/
theorem faultOf_behind (m : Machine) (byte : UInt8) (a : Bytes) :
    (m.behind a).faultOf byte = (m.faultOf byte).map (Fault.shift a.length) := by
  have hdepth : ∀ op, (m.checkDepth op).map (Fault.shift a.length) = m.checkDepth op := by
    intro op
    cases h : m.checkDepth op with
    | none => rfl
    | some fault => 
      rcases checkDepth_eq_some_iff.1 h with ⟨-, rfl⟩ | ⟨-, limit, -, -, rfl⟩ <;> rfl
  have hstore : ∀ op : Opcode, (op.refusal (m.operands op) m.memory).map (Fault.shift a.length) =
      op.refusal (m.operands op) m.memory := by
    intro op
    cases h : op.refusal (m.operands op) m.memory with
    | none => rfl
    | some fault =>
      have htaken := (Opcode.ofStore_of_refusal h).1
      cases fault <;> first | rfl | cases htaken
  unfold faultOf
  cases Opcode.ofByte? byte with
  | none => cases hstrict : m.policy.strict <;> simp [behind, hstrict, Fault.shift]
  | some op =>
    simp only [Option.map_or, hdepth, hstore]
    rfl

/-- A run over code that stands behind other code is the same run, moved along. -/
theorem run_behind (m : Machine) (a : Bytes) : (m.behind a).run = m.run.behind a := by
  induction m using code_induction with
  | finished m hend =>
    have hend' : (m.behind a).code.length ≤ (m.behind a).pc := by
      simp only [behind, List.length_append]
      omega
    rw [run_of_finished hend, run_of_finished hend']
    rfl
  | next m byte hbyte ih =>
    have hbyte' : (m.behind a).code[(m.behind a).pc]? = some byte := by
      rw [← hbyte]
      simp only [behind]
      rw [List.getElem?_append_right (Nat.le_add_right _ _), Nat.add_sub_cancel_left]
    have hbudget : (m.behind a).exhausted = m.exhausted := rfl
    rw [run_eq hbyte, run_eq hbyte', hbudget, faultOf_behind, next_behind]
    cases m.exhausted with
    | some limit => rfl
    | none =>
      cases m.faultOf byte with
      | some fault => simp [stopped_behind, Attempt.behind]
      | none => exact ih

/-! ### Code in sequence -/

/-- Code runs as its first part and then its second part, each on its own. A first part that fails
fails alike before any second part; a first part that ends with its last byte hands stack, memory
and count over to the second part, which runs as it would at offset zero. -/
theorem run_append (a b : Bytes) (m : Machine) :
    (∀ r left, ({ m with code := a, pc := 0 } : Machine).run = .ok r left → r.pc = a.length →
      ({ m with code := a ++ b, pc := 0 } : Machine).run =
        (({ m with
            code := b
            pc := 0
            stack := left.stack
            memory := left.memory
            steps := left.steps } : Machine).run).behind a) ∧
      ∀ fault left, ({ m with code := a, pc := 0 } : Machine).run = .error fault left →
        ({ m with code := a ++ b, pc := 0 } : Machine).run =
          .error fault { left with code := a ++ b } := by
  refine ⟨fun r left h hpc => ?_, fun fault left h => ?_⟩
  · obtain ⟨states, hsteps, -, rfl⟩ := exists_steps_of_run h
    obtain ⟨hcode, hpolicy, -⟩ := hsteps.frame
    have hpc : left.pc = a.length := hpc
    have hhandover : left.before b =
        ({ m with
            code := b
            pc := 0
            stack := left.stack
            memory := left.memory
            steps := left.steps } : Machine).behind a := by
      simp only [before, behind, hcode, hpolicy, hpc, Nat.add_zero]
    have hfirst := run_before_of_ok b h hpc
    rw [hhandover, run_behind] at hfirst
    exact hfirst
  · have hcode : left.code = a := code_of_run_error h
    have hmore : left.before b = { left with code := a ++ b } := by rw [before, hcode]
    rw [← hmore]
    exact run_before_of_error b h

end Machine

end WordMachine
