import WordMachine.Proofs.Machine.Budget
import WordMachine.Proofs.Machine.Padding

/-! # Progress

Execution moves forward with every step, and so comes to an end.

* **Steps.** A step before the end of the code counts itself and moves the pointer, by one byte if
  it fails and by at most 33 if it passes (`step_progress`).
* **Logs.** The bytes in front of the pointer are used up, at least one by each step, so a log and
  what it leaves of the code are together no longer than the code was (`Steps.length_add_le`).
* **Runs.** Hence a run fetches no more instructions than there are bytes in front of its pointer
  (`exists_runsFor`), and a budget of as many steps is never used up
  (`run_ne_stepLimitExceeded`). Where it ends is counted by `Listing.missing`. -/

namespace WordMachine.Machine

section

variable [Host]

/-- A step before the end of the code counts itself and moves the pointer, whether it fails or
not. -/
theorem step_progress {m : Machine} (hpc : m.pc < m.code.length) :
    m.step.machine.steps = m.steps + 1 ∧ m.pc + 1 ≤ m.step.machine.pc ∧
      m.step.machine.pc ≤ m.pc + 33 := by
  rw [step_eq (List.getElem?_eq_getElem hpc)]
  generalize m.code[m.pc] = byte
  cases m.faultOf byte with
  | some fault =>
    show m.steps + 1 = m.steps + 1 ∧ m.pc + 1 ≤ m.pc + 1 ∧ m.pc + 1 ≤ m.pc + 33
    omega
  | none =>
    show (m.next byte).steps = m.steps + 1 ∧ m.pc + 1 ≤ (m.next byte).pc ∧
      (m.next byte).pc ≤ m.pc + 33
    have hle := Opcode.immediateOfByte_le byte
    rw [next_steps, next_pc]
    omega

/-- Each step of a log uses up at least one byte of the code in front of the pointer. -/
theorem Steps.length_add_le {m last : Machine} {states : List State} (h : Steps m states last) :
    states.length + (m.code.length - last.pc) ≤ m.code.length - m.pc := by
  induction h with
  | refl m => rw [List.length_nil, Nat.zero_add]
  | @step m after last s states hs _ ih =>
    obtain ⟨byte, hbyte, -, -, rfl⟩ := step_eq_some_iff.1 hs
    have hpc : m.pc < m.code.length := (List.getElem?_eq_some_iff.1 hbyte).1
    rw [next_code, next_pc] at ih
    rw [List.length_cons]
    omega

/-- Running the machine takes `count` steps: it leaves behind what as many steps that pass leave
behind, or one that fails after all but one of them. -/
def RunsFor (m : Machine) (count : Nat) : Prop :=
  ∃ states last, Steps m states last ∧
    (count = states.length ∧ m.run.machine = last ∨
      count = states.length + 1 ∧ ∃ fault left, last.step = .error fault left ∧
        m.run.machine = left)

/-- A run fetches no more instructions than there are bytes in front of its pointer. -/
theorem exists_runsFor (m : Machine) : ∃ count ≤ m.code.length - m.pc, m.RunsFor count := by
  cases hrun : m.run with
  | ok r left =>
    obtain ⟨states, hsteps, -⟩ := exists_steps_of_run hrun
    have hlen := hsteps.length_add_le
    refine ⟨states.length, by omega, states, left, hsteps, .inl ⟨rfl, ?_⟩⟩
    rw [hrun]
    rfl
  | error fault left =>
    obtain ⟨states, last, hsteps, hend⟩ := exists_steps_of_run_error hrun
    have hlen := hsteps.length_add_le
    have hleft : m.run.machine = left := by
      rw [hrun]
      rfl
    rcases hend with ⟨rfl, -⟩ | hstep
    · exact ⟨states.length, by omega, states, left, hsteps, .inl ⟨rfl, hleft⟩⟩
    · -- The byte of the step that fails has been fetched as well.
      obtain ⟨byte, hbyte, -, -⟩ := step_eq_error_iff.1 hstep
      have hpc : last.pc < last.code.length := (List.getElem?_eq_some_iff.1 hbyte).1
      rw [hsteps.frame.1] at hpc
      exact ⟨states.length + 1, by omega, states, last, hsteps,
        .inr ⟨rfl, fault, left, hstep, hleft⟩⟩

/-- A run counts the steps that it takes. -/
theorem RunsFor.steps_eq {m : Machine} {count : Nat} (h : m.RunsFor count) :
    m.run.machine.steps = m.steps + count := by
  obtain ⟨states, last, hsteps, ⟨rfl, hleft⟩ | ⟨rfl, fault, left, hstep, hleft⟩⟩ := h
  · rw [hleft]
    exact hsteps.frame.2.2
  · obtain ⟨byte, -, -, rfl⟩ := step_eq_error_iff.1 hstep
    have hcount := hsteps.frame.2.2
    rw [hleft]
    show last.steps + 1 = m.steps + (states.length + 1)
    omega

/-- A budget of as many steps as there are bytes in front of the pointer is never used up. -/
theorem run_ne_stepLimitExceeded {m left : Machine} {limit n : Nat}
    (hlimit : m.policy.stepLimit = some limit)
    (hroom : m.steps + (m.code.length - m.pc) ≤ limit) :
    m.run ≠ .error (.stepLimitExceeded n) left := by
  intro hrun
  obtain ⟨states, last, hsteps, ⟨-, hpc, used, hused, -⟩ | hstep⟩ := exists_steps_of_run_error hrun
  · obtain ⟨hcode, hpolicy, hcount⟩ := hsteps.frame
    have hlen := hsteps.length_add_le
    rw [hcode] at hpc
    have hleft : last.exhausted = none := exhausted_eq_none_iff.2 fun k hk => by
      rw [hpolicy] at hk
      cases hlimit.symm.trans hk
      omega
    cases hleft.symm.trans hused
  · exact step_ne_stepLimitExceeded last left n hstep

/-- Execution moves forward with every step and stops. A step before the end of the code moves the
pointer by 1 to 33 bytes, whether it fails or not, and counts itself if the counter has room. So no
log is longer than the code in front of the pointer, a run takes no more steps than that and counts
them if the counter has room, and a fresh run whose budget has a step for every byte is not stopped
by it. A run that reports ends behind the code by as many bytes as a push at its end lacks, and by
none if there is no such push. -/
theorem execution_stops (m : Machine) :
    (m.pc < m.code.length →
      (m.HasRoom 1 → m.step.machine.steps = m.steps + 1) ∧ m.pc + 1 ≤ m.step.machine.pc ∧
        m.step.machine.pc ≤ m.pc + 33) ∧
      (∀ states last, Steps m states last → states.length ≤ m.code.length - m.pc) ∧
      (∃ count ≤ m.code.length - m.pc, m.RunsFor count ∧
        (m.HasRoom count → m.run.machine.steps = m.steps + count)) ∧
      (∀ code policy limit, policy.stepLimit = some limit → code.length ≤ limit →
        ∀ n left, (load code policy).run ≠ .error (.stepLimitExceeded n) left) ∧
      (m.pc ≤ m.code.length → ∀ r left, m.run = .ok r left →
        m.code.length ≤ r.pc ∧ r.pc ≤ m.code.length + 32 ∧
          ∀ count, 0 < count →
            (r.pc = m.code.length + count ↔ Listing.EndsShortFrom m.code m.pc count)) := by
  refine ⟨fun hpc => ?_, fun states last h => ?_, ?_, ?_, ?_⟩
  · obtain ⟨hcount, hmoved⟩ := step_progress hpc
    exact ⟨fun _ => hcount, hmoved⟩
  · have hlen := h.length_add_le
    omega
  · obtain ⟨count, hle, hruns⟩ := exists_runsFor m
    exact ⟨count, hle, hruns, fun _ => hruns.steps_eq⟩
  · intro code policy limit hlimit hroom n left
    apply run_ne_stepLimitExceeded (m := load code policy) hlimit
    show 0 + (code.length - 0) ≤ limit
    omega
  · intro hpc r left hrun
    have hend : left.pc = m.code.length + Listing.missing m.code m.pc := pc_of_run hpc hrun
    obtain ⟨states, -, -, rfl⟩ := exists_steps_of_run hrun
    have hle := Listing.missing_le m.code m.pc
    show m.code.length ≤ left.pc ∧ left.pc ≤ m.code.length + 32 ∧ _
    refine ⟨by omega, by omega, fun count hcount => ?_⟩
    rw [← Listing.missing_eq_iff_from hcount]
    show left.pc = m.code.length + count ↔ _
    omega

end

/-- A push of 32 bytes at the very end of the code lacks all of them. -/
theorem execution_stops_no_immediate :
    (load [0x7f]).HasRoom 1 ∧ (load [0x7f]).step.machine.steps = 1 ∧
      Listing.EndsShortFrom [0x7f] 0 32 ∧ (load [0x7f]).run.machine.pc = 33 := by
  let after : Machine := { load [0x7f] with stack := [0#256], pc := 33, steps := 1 }
  have hroom : (load [0x7f]).HasRoom 1 := by decide
  have hstep : (load [0x7f]).step =
      .ok (some ⟨⟨0, 0x7f, [], [0#256]⟩, [0#256], {}⟩) after := rfl
  have hrun : (load [0x7f]).run = .ok ⟨[0#256], [], 33, 1⟩ after :=
    (run_eq_ok_iff_steps rfl).2 ⟨_, .step hstep (.refl after), rfl, rfl⟩
  obtain ⟨hmoves, -, -, -, hends⟩ := execution_stops (load [0x7f])
  obtain ⟨hcounts, -⟩ := hmoves (by decide)
  obtain ⟨-, -, hshort⟩ := hends (by decide) _ _ hrun
  refine ⟨hroom, hcounts hroom, (hshort 32 (by decide)).1 rfl, ?_⟩
  rw [hrun]
  rfl

end WordMachine.Machine
