import WordMachine.Proofs.Machine.Drivers
import WordMachine.Proofs.Machine.Faults

/-! # What lies beneath

A run neither sees nor moves the words beneath those that it takes.

* **Alike.** `Machine.above` puts words beneath a stack. A byte that has its operands does the same
  over any words, and leaves them in place (`next_above`). Without a limit on the depth it fails
  alike, too (`faultOf_above`).
* **Apart.** Only a fault for want of operands counts the words of the whole stack, so it is the
  one that other words beneath may take away. -/

namespace WordMachine

/-- Whether an instruction ended in this fault for want of operands. -/
def Fault.ofDepth : Fault → Bool
  | .stackUnderflow _ _ _ => true
  | _ => false

namespace Machine

/-- The machine with more words beneath its stack. -/
def above (m : Machine) (t : Stack) : Machine := { m with stack := m.stack ++ t }

theorem operands_above {m : Machine} {op : Opcode} (h : op.inputs ≤ m.stack.length) (t : Stack) :
    (m.above t).operands op = m.operands op :=
  List.take_append_of_le_length h

/-- Without a limit, the check of the depth passes if the operands are there. -/
theorem checkDepth_of_no_limit {m : Machine} {op : Opcode} (hfree : m.policy.stackLimit = none)
    (h : op.inputs ≤ m.stack.length) : m.checkDepth op = none :=
  checkDepth_eq_none_iff.2 ⟨h, fun limit hlimit => by cases hfree.symm.trans hlimit⟩

theorem report_above (m : Machine) (t : Stack) :
    (m.above t).report = { m.report with stack := t.bottomUp ++ m.report.stack } := by
  simp [report, above, Stack.bottomUp]

end Machine

/-- The outcome of a run with more words beneath every stack in it. -/
def Attempt.above (t : Stack) : Attempt Report → Attempt Report
  | .ok r left => .ok { r with stack := t.bottomUp ++ r.stack } (left.above t)
  | .error fault left => .error fault (left.above t)

namespace Machine

section

variable [Host]

/-- A store that is refused had its two operands. -/
theorem two_le_of_ofStore {m : Machine} {byte : UInt8} {fault : Fault}
    (h : m.faultOf byte = some fault) (hstore : fault.ofStore = true) : 2 ≤ m.stack.length := by
  have hat : ∀ {address}, m.StoresAt byte address → 2 ≤ m.stack.length := by
    rintro address ⟨op, -, rfl | rfl, hargs, -⟩ <;> exact hargs
  cases faultOf_eq_some_iff.1 h with
  | invalidOpcode | stackUnderflow | stackOverflow => cases hstore
  | invalidMemoryOffset hs => exact hat hs
  | memoryLimitExceeded hs => exact hat hs
  | outOfMemory hs => exact hat hs

/-- A byte that passes takes and puts back its own words only. -/
theorem next_above {m : Machine} {byte : UInt8} (h : m.faultOf byte = none) (t : Stack) :
    (m.above t).next byte = (m.next byte).above t := by
  cases hop : Opcode.ofByte? byte with
  | none =>
    rw [next_of_unknown hop, next_of_unknown hop]
    rfl
  | some op =>
    have hargs : op.inputs ≤ m.stack.length := inputs_le_of_pass hop h
    have hrest : (m.stack ++ t).drop op.inputs = m.stack.drop op.inputs ++ t :=
      List.drop_append_of_le_length hargs
    have hresults : (m.above t).results op = m.results op := by
      rw [results, operands_above hargs]
      rfl
    simp only [next, hop, hresults, operands_above hargs]
    simp only [above, hrest, List.append_assoc]
    rfl

/-- Without a limit on the depth, a byte has the same fault over other words, unless it lacks
operands. -/
theorem faultOf_above {m : Machine} {byte : UInt8} (hfree : m.policy.stackLimit = none)
    (h : ∀ fault, m.faultOf byte = some fault → fault.ofDepth = false) (t : Stack) :
    (m.above t).faultOf byte = m.faultOf byte := by
  cases hop : Opcode.ofByte? byte with
  | none =>
    simp only [faultOf, hop]
    rfl
  | some op =>
    rcases Nat.lt_or_ge m.stack.length op.inputs with hshallow | hargs
    · have hfault := faultOf_eq_some_iff.2 (.stackUnderflow hop hshallow)
      cases h _ hfault
    · have hmore : op.inputs ≤ (m.above t).stack.length := by
        simp only [above, List.length_append]
        omega
      simp only [faultOf, hop, checkDepth_of_no_limit hfree hargs,
        checkDepth_of_no_limit (m := m.above t) hfree hmore, operands_above hargs]
      rfl

/-- What a fault leaves behind, over the same words. -/
theorem stopped_above {m : Machine} {byte : UInt8} {fault : Fault}
    (h : m.faultOf byte = some fault) (t : Stack) :
    (m.above t).stopped fault = (m.stopped fault).above t := by
  unfold stopped
  cases hstore : fault.ofStore with
  | false => rfl
  | true =>
    have hrest : (m.stack ++ t).drop 2 = m.stack.drop 2 ++ t :=
      List.drop_append_of_le_length (two_le_of_ofStore h hstore)
    simp only [above, hrest, if_true]
    rfl

/-- A run that does not end for want of operands has the same outcome over any words. -/
theorem run_above_eq {m : Machine} (hfree : m.policy.stackLimit = none) (t : Stack)
    (h : ∀ fault left, m.run = .error fault left → fault.ofDepth = false) :
    (m.above t).run = m.run.above t := by
  induction m using code_induction with
  | finished m hend =>
    have hend' : (m.above t).code.length ≤ (m.above t).pc := hend
    rw [run_of_finished hend, run_of_finished hend', report_above]
    rfl
  | next m byte hbyte ih =>
    have hbyte' : (m.above t).code[(m.above t).pc]? = some byte := hbyte
    have hbudget : (m.above t).exhausted = m.exhausted := rfl
    rw [run_eq hbyte] at h ⊢
    rw [run_eq hbyte', hbudget]
    cases hexhausted : m.exhausted with
    | some limit => rfl
    | none =>
      simp only [hexhausted] at h
      have hdepth : ∀ fault, m.faultOf byte = some fault → fault.ofDepth = false := by
        intro fault hfault
        rw [hfault] at h
        exact h fault _ rfl
      rw [faultOf_above hfree hdepth]
      cases hfault : m.faultOf byte with
      | some fault =>
        simp only [stopped_above hfault]
        rfl
      | none =>
        rw [hfault] at h
        simp only [next_above hfault]
        exact ih (by rw [next_policy, hfree]) h

/-- Without a limit on the depth, a program cannot see or disturb the words beneath those that it
takes: put beneath the stack, they stay beneath what the run leaves, and nothing else changes. A
run that fails does so alike over them, unless it fails for want of operands. -/
theorem run_above (m : Machine) (t : Stack) (hfree : m.policy.stackLimit = none) :
    (∀ r left, m.run = .ok r left →
      (m.above t).run = .ok { r with stack := t.bottomUp ++ r.stack } (left.above t)) ∧
      ∀ fault left, m.run = .error fault left →
        (∀ name required available, fault ≠ .stackUnderflow name required available) →
          (m.above t).run = .error fault (left.above t) := by
  refine ⟨fun r left h => ?_, fun fault left h hdepth => ?_⟩
  · rw [run_above_eq hfree t (fun fault left' h' => by cases h.symm.trans h'), h]
    rfl
  · have hfault : fault.ofDepth = false := by
      cases fault with
      | stackUnderflow name required available => exact absurd rfl (hdepth name required available)
      | _ => rfl
    have hall : ∀ fault' left', m.run = .error fault' left' → fault'.ofDepth = false := by
      intro fault' left' h'
      cases h.symm.trans h'
      exact hfault
    rw [run_above_eq hfree t hall, h]
    rfl

end

/-- A difference over a word that it does not take. -/
theorem run_above_sub :
    let m : Machine := { load [0x03] with stack := [5#256, 3#256] }
    m.policy.stackLimit = none ∧
      ∃ left, (m.above [9#256]).run = .ok ⟨[9#256, 2#256], [], 1, 1⟩ left := by
  intro m
  let after : Machine := { m with stack := [2#256], pc := 1, steps := 1 }
  have hfree : m.policy.stackLimit = none := rfl
  have hstep : m.step =
      .ok (some ⟨⟨0, 0x03, [5#256, 3#256], [2#256]⟩, [2#256], {}⟩) after := rfl
  have hrun : m.run = .ok ⟨[2#256], [], 1, 1⟩ after :=
    (run_eq_ok_iff_steps rfl).2 ⟨_, .step hstep (.refl after), rfl, rfl⟩
  exact ⟨hfree, _, (run_above m [9#256] hfree).1 _ _ hrun⟩

end Machine

end WordMachine
