import WordMachine.Proofs.Machine.Drivers
import WordMachine.Proofs.Machine.Faults
import WordMachine.Proofs.Machine.Guards

/-! # Limits that hold

The limits of a policy hold at every moment in the life of a machine, not only at the end of a run.

* **Calls.** `Machine.Call` lists what may be asked of a machine, and `after` is the machine that a
  call leaves behind, whether it succeeds or fails. Calls may come in any order: a machine may be
  stepped on after a fault, or made to skip a byte and so to execute immediates.
* **The invariant.** The two limits stand at two places: the depth is looked up in the policy, the
  size in a copy that memory has of its own. `Machine.Confined` says that the copy is the one of the
  policy, and that both limits are kept. Each call preserves it (`Confined.after`).
* **Overflow.** In a confined machine only a push can overflow the stack, and only a full one
  (`Confined.overflow_iff`). -/

namespace WordMachine

/-- Only a push leaves more words on the stack than it takes. -/
theorem Opcode.exists_push_of_inputs_lt {op : Opcode} (h : op.inputs < op.outputs) :
    ∃ width, op = .push width := by
  cases op with
  | push width => exact ⟨width, rfl⟩
  | _ => simp [inputs, outputs] at h

@[simp] theorem Opcode.limit_memoryAfter (op : Opcode) (args : List Word) (m : Memory) :
    (op.memoryAfter args m).limit = m.limit := by
  unfold memoryAfter
  split
  · exact m.limit_put _ _
  · exact m.limit_put _ _
  · rfl

/-- Stack and memory of a reported state are within the limits. -/
structure Policy.WithinState (p : Policy) (s : State) : Prop where
  depth : ∀ limit, p.stackLimit = some limit → s.stack.length ≤ limit
  size : ∀ limit, p.memoryLimit = some limit → s.memory.size ≤ limit

namespace Machine

/-- What may be asked of a machine. -/
inductive Call where
  | step
  | run
  | peek (n : Nat)
  | fetch
  | reset
deriving DecidableEq, Repr

/-- The machine that a call leaves behind. -/
def after [Host] (m : Machine) : Call → Machine
  | .step => m.step.machine
  | .run => m.run.machine
  | .peek _ => m
  | .fetch => m.fetch.elim m Prod.snd
  | .reset => m.reset

/-- The machine runs under the policy, its memory under the limit of the policy, and it is within
the limits. -/
structure Confined (p : Policy) (m : Machine) : Prop where
  policy_eq : m.policy = p
  limit_eq : m.memory.limit = p.memoryLimit
  within : p.Within m

theorem confined_load (code : Bytes) (p : Policy) : Confined p (load code p) where
  policy_eq := rfl
  limit_eq := rfl
  within := ⟨fun _ _ => Nat.zero_le _, fun _ _ => Nat.zero_le _⟩

namespace Confined

variable {p : Policy} {m : Machine}

/-- Putting a confined machine under its own policy changes nothing. -/
theorem under_eq (h : Confined p m) : m.under p = m := by
  have hmemory : m.memory.under p.memoryLimit = m.memory := by rw [Memory.under, ← h.limit_eq]
  rw [under, hmemory, ← h.policy_eq]

/-- Pointer and count do not matter, and fewer words are within the limit, too. -/
theorem of_suffix (h : Confined p m) {stack : Stack} (hstack : stack.length ≤ m.stack.length)
    (pc steps : Nat) : Confined p { m with stack, pc, steps } where
  policy_eq := h.policy_eq
  limit_eq := h.limit_eq
  within :=
    ⟨fun limit hlimit => Nat.le_trans hstack (h.within.depth limit hlimit), h.within.size⟩

/-- A faulty byte leaves at most the words that it found. -/
theorem stopped (h : Confined p m) (fault : Fault) : Confined p (m.stopped fault) := by
  refine h.of_suffix ?_ (m.pc + 1) (m.steps + 1)
  cases fault.ofStore with
  | false => exact Nat.le_refl _
  | true =>
    rw [if_pos rfl, List.length_drop]
    exact Nat.sub_le _ _

theorem fetch (h : Confined p m) : Confined p (m.fetch.elim m Prod.snd) := by
  rw [Machine.fetch]
  cases m.code[m.pc]? with
  | none => exact h
  | some byte => exact h.of_suffix (Nat.le_refl _) (m.pc + 1) m.steps

theorem reset (h : Confined p m) : Confined p m.reset := by
  rw [Machine.reset, h.policy_eq]
  exact confined_load m.code p

variable [Host]

/-- A byte that passes leads to a confined machine: the guard has looked at both limits. -/
theorem next (h : Confined p m) {byte : UInt8} (hfault : m.faultOf byte = none) :
    Confined p (m.next byte) where
  policy_eq := (next_policy m byte).trans h.policy_eq
  limit_eq := by
    rw [← h.limit_eq, Machine.next]
    cases Opcode.ofByte? byte with
    | none => rfl
    | some op => exact op.limit_memoryAfter (m.operands op) m.memory
  within := by
    rw [← h.under_eq] at hfault
    exact ((faultOf_under_eq_none_iff h.within).1 hfault).2.2

/-- A state that a step reports is within the limits, and so is the machine it leaves. -/
theorem of_step (h : Confined p m) {s : State} {left : Machine}
    (hs : m.step = .ok (some s) left) : p.WithinState s ∧ Confined p left := by
  obtain ⟨byte, -, hfault, rfl, rfl⟩ := step_eq_some_iff.1 hs
  have hnext := h.next hfault
  exact ⟨⟨hnext.within.depth, hnext.within.size⟩, hnext⟩

/-- A step leaves a confined machine behind, also when it fails. -/
theorem step (h : Confined p m) : Confined p m.step.machine := by
  cases hs : m.step with
  | error fault left =>
    obtain ⟨byte, -, -, rfl⟩ := step_eq_error_iff.1 hs
    exact h.stopped fault
  | ok s? left =>
    cases s? with
    | none =>
      obtain ⟨-, rfl⟩ := step_eq_none_iff.1 hs
      exact h
    | some s => exact (h.of_step hs).2

/-- All states of a log are within the limits, and so is the machine at its end. -/
theorem of_steps (h : Confined p m) {states : List State} {last : Machine}
    (hsteps : Steps m states last) : (∀ s ∈ states, p.WithinState s) ∧ Confined p last := by
  induction hsteps with
  | refl m => exact ⟨by simp, h⟩
  | step hs _ ih =>
    obtain ⟨hstate, hafter⟩ := h.of_step hs
    obtain ⟨hstates, hlast⟩ := ih hafter
    exact ⟨List.forall_mem_cons.2 ⟨hstate, hstates⟩, hlast⟩

/-- A run leaves a confined machine behind, whether it reports, fails or uses up its budget. -/
theorem run (h : Confined p m) : Confined p m.run.machine := by
  cases hrun : m.run with
  | ok r left =>
    obtain ⟨states, hsteps, -, -⟩ := exists_steps_of_run hrun
    exact (h.of_steps hsteps).2
  | error fault left =>
    obtain ⟨states, last, hsteps, ⟨rfl, -⟩ | hs⟩ := exists_steps_of_run_error hrun
    · exact (h.of_steps hsteps).2
    · have hleft := (h.of_steps hsteps).2.step
      rwa [hs] at hleft

/-- Whatever is asked of a confined machine, it stays confined. -/
theorem after (h : Confined p m) (c : Call) : Confined p (m.after c) := by
  cases c with
  | step => exact h.step
  | run => exact h.run
  | peek n => exact h
  | fetch => exact h.fetch
  | reset => exact h.reset

theorem foldl_after (h : Confined p m) (calls : List Call) :
    Confined p (calls.foldl Machine.after m) := by
  induction calls generalizing m with
  | nil => exact h
  | cons c calls ih => exact ih (h.after c)

/-- A confined machine overflows at a push, when the stack is full. -/
theorem overflow_iff (h : Confined p m) {limit : Nat} :
    (∃ left, m.step = .error (.stackOverflow limit) left) ↔
      p.stackLimit = some limit ∧ m.stack.length = limit ∧
        ∃ width, m.code[m.pc]? = some (Opcode.push width).toByte := by
  rw [step_overflow_iff, h.policy_eq]
  constructor
  · rintro ⟨byte, op, hbyte, hop, hargs, hlimit, hlt⟩
    have hkept : m.stack.length ≤ limit := h.within.depth limit hlimit
    have hgain : op.inputs < op.outputs := by omega
    obtain ⟨width, rfl⟩ := Opcode.exists_push_of_inputs_lt hgain
    simp only [Opcode.inputs, Opcode.outputs] at hlt
    refine ⟨hlimit, by omega, width, ?_⟩
    rw [hbyte, Opcode.toByte_of_ofByte? hop]
  · rintro ⟨hlimit, rfl, width, hbyte⟩
    exact ⟨_, _, hbyte, Opcode.ofByte?_toByte _, Nat.zero_le _, hlimit, Nat.lt_succ_self _⟩

end Confined

/-- Limits hold in every machine that calls lead to from a fresh one, and in every state that it
reports. In every such machine a step overflows exactly at a push when the stack is full; an
instruction that leaves no more words than it takes never does. -/
theorem limits_hold [Host] (code : Bytes) (p : Policy) (calls : List Call) :
    let m := calls.foldl after (load code p)
    p.Within m ∧
      (∀ s left, m.step = .ok (some s) left → p.WithinState s) ∧
      (∀ n states, m.peek n = .ok states → ∀ s ∈ states, p.WithinState s) ∧
      (∀ limit, (∃ left, m.step = .error (.stackOverflow limit) left) ↔
        p.stackLimit = some limit ∧ m.stack.length = limit ∧
          ∃ width, m.code[m.pc]? = some (Opcode.push width).toByte) ∧
      ∀ op : Opcode, m.code[m.pc]? = some op.toByte → op.outputs ≤ op.inputs →
        ∀ limit left, m.step ≠ .error (.stackOverflow limit) left := by
  intro m
  have hm : Confined p m := (confined_load code p).foldl_after calls
  refine ⟨hm.within, fun s left hs => (hm.of_step hs).1, fun n states hpeek => ?_,
    fun limit => hm.overflow_iff, fun op hbyte hle limit left hs => ?_⟩
  · obtain ⟨last, hsteps, -⟩ := peek_eq_ok_iff.1 hpeek
    exact (hm.of_steps hsteps).1
  · obtain ⟨-, -, width, hpush⟩ := hm.overflow_iff.1 ⟨left, hs⟩
    rw [hbyte, Option.some.injEq] at hpush
    have hop := Opcode.ofByte?_toByte op
    rw [hpush, Opcode.ofByte?_toByte, Option.some.injEq] at hop
    subst hop
    exact Nat.not_succ_le_zero 0 hle

end Machine

end WordMachine
