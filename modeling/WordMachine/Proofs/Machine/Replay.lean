import WordMachine.Proofs.Machine.Steps

/-! # Replaying a log

The operands and results that a log shows are those of its instructions, though they are read off
the stack before and after each step and not reported by the instructions themselves.

* **Faithful states.** `State.Follows` relates a state of a log to the stack and the memory before
  it: operands from the top of that stack, results in their place, and in memory what a store has
  written. Every step reports such a state (`follows_of_step`).
* **Replay.** `replay` goes through a log with the byte, the operands and the results of each entry
  at hand, and nothing else: no code, no policy, no host. It comes out where stepping does
  (`Steps.replay_eq`). -/

namespace WordMachine

namespace Opcode

/-- The number of words that a byte takes from the stack as an instruction. -/
def inputsOfByte (byte : UInt8) : Nat := ((ofByte? byte).map inputs).getD 0

/-- The number of words that a byte puts on the stack as an instruction. -/
def outputsOfByte (byte : UInt8) : Nat := ((ofByte? byte).map outputs).getD 0

/-- Only the two stores change memory. -/
theorem memoryAfter_of_ne {op : Opcode} (hword : op.toByte ≠ 0x52) (hlow : op.toByte ≠ 0x53)
    (args : List Word) (m : Memory) : op.memoryAfter args m = m := by
  cases op with
  | mstore => exact absurd rfl hword
  | mstore8 => exact absurd rfl hlow
  | _ => rfl

end Opcode

/-- What a state of a log says about the stack and the memory before it. -/
structure State.Follows [Host] (s : State) (stack : Stack) (memory : Memory) : Prop where
  inputs : s.instruction.inputs = stack.take (Opcode.inputsOfByte s.instruction.opcode)
  length_inputs :
    s.instruction.inputs.length = Opcode.inputsOfByte s.instruction.opcode
  length_outputs :
    s.instruction.outputs.length = Opcode.outputsOfByte s.instruction.opcode
  stack_eq : s.stack = s.instruction.outputs ++ stack.drop s.instruction.inputs.length
  memory_eq : s.instruction.opcode ≠ 0x52 → s.instruction.opcode ≠ 0x53 → s.memory = memory
  mstore : s.instruction.opcode = 0x52 → ∃ address value,
    s.instruction.inputs = [address, value] ∧
      Memory.storeAt Memory.store32 address value memory = .ok () s.memory
  mstore8 : s.instruction.opcode = 0x53 → ∃ address value,
    s.instruction.inputs = [address, value] ∧
      Memory.storeAt Memory.store8 address value memory = .ok () s.memory

/-- What a log shows of an instruction. -/
structure Logged where
  opcode : UInt8
  inputs : List Word
  outputs : List Word
deriving DecidableEq, Repr

/-- The entry of a state, without its snapshots. -/
def State.logged (s : State) : Logged :=
  ⟨s.instruction.opcode, s.instruction.inputs, s.instruction.outputs⟩

/-- Does to stack and memory what an entry shows. -/
def Logged.apply (before : Stack × Memory) (e : Logged) : Stack × Memory :=
  (e.outputs ++ before.1.drop e.inputs.length,
    (Opcode.ofByte? e.opcode).elim before.2 fun op => op.memoryAfter e.inputs before.2)

/-- Stack and memory after a log, from those before it. -/
def replay (stack : Stack) (memory : Memory) (log : List Logged) : Stack × Memory :=
  log.foldl Logged.apply (stack, memory)

namespace Machine

section

variable [Host]

/-- A byte that passes, and is known, shows what it does to the stack. -/
theorem logged_stack {m : Machine} {byte : UInt8} {op : Opcode}
    (hop : Opcode.ofByte? byte = some op) (h : m.faultOf byte = none) :
    (m.next byte).stack = m.results op ++ m.stack.drop (m.operands op).length := by
  rw [next_stack hop, length_operands (inputs_le_of_pass hop h)]

/-- Every state that a step reports follows on the machine before the step. -/
theorem follows_of_step {m after : Machine} {s : State} (h : m.step = .ok (some s) after) :
    s.Follows m.stack m.memory := by
  obtain ⟨byte, -, hfault, rfl, -⟩ := step_eq_some_iff.1 h
  cases hop : Opcode.ofByte? byte with
  | none =>
    have hword : byte ≠ 0x52 := by
      rintro rfl
      cases hop
    have hlow : byte ≠ 0x53 := by
      rintro rfl
      cases hop
    constructor <;>
      simp [entry, executed_of_unknown hop, next_of_unknown hop, Opcode.inputsOfByte,
        Opcode.outputsOfByte, hop, hword, hlow]
  | some op =>
    have hargs := inputs_le_of_pass hop hfault
    have hback : op.toByte = byte := Opcode.toByte_of_ofByte? hop
    have htaken : ∀ address value rest, m.stack = address :: value :: rest → op.inputs = 2 →
        m.operands op = [address, value] := by
      intro address value rest hstack htwo
      rw [operands, htwo, hstack]
      rfl
    constructor <;> simp only [entry, executed_of_known hop]
    case inputs =>
      rw [Opcode.inputsOfByte, hop]
      rfl
    case length_inputs =>
      rw [Opcode.inputsOfByte, hop]
      exact length_operands hargs
    case length_outputs =>
      rw [Opcode.outputsOfByte, hop]
      exact length_results hargs
    case stack_eq => exact logged_stack hop hfault
    case memory_eq =>
      intro hword hlow
      rw [next_memory hop]
      exact Opcode.memoryAfter_of_ne (hback ▸ hword) (hback ▸ hlow) _ _
    case mstore =>
      rintro rfl
      cases hop
      obtain ⟨address, value, rest, hstack, hstored⟩ :=
        store_of_pass rfl hfault rfl m.memory.store32_eq
      exact ⟨address, value, htaken address value rest hstack rfl, hstored⟩
    case mstore8 =>
      rintro rfl
      cases hop
      obtain ⟨address, value, rest, hstack, hstored⟩ :=
        store_of_pass rfl hfault rfl m.memory.store8_eq
      exact ⟨address, value, htaken address value rest hstack rfl, hstored⟩

/-- Replaying the entry of a step does to stack and memory what the step did. -/
theorem apply_logged {m after : Machine} {s : State} (h : m.step = .ok (some s) after) :
    Logged.apply (m.stack, m.memory) s.logged = (after.stack, after.memory) := by
  obtain ⟨byte, -, hfault, rfl, rfl⟩ := step_eq_some_iff.1 h
  cases hop : Opcode.ofByte? byte with
  | none =>
    simp [Logged.apply, State.logged, entry, executed_of_unknown hop, next_of_unknown hop, hop]
  | some op =>
    simp [Logged.apply, State.logged, entry, executed_of_known hop, hop, logged_stack hop hfault,
      next_memory hop]

/-- Replaying a log comes out where stepping does. -/
theorem Steps.replay_eq {m last : Machine} {states : List State} (h : Steps m states last) :
    replay m.stack m.memory (states.map State.logged) = (last.stack, last.memory) := by
  induction h with
  | refl m => rfl
  | step hs _ ih =>
    rw [replay, List.map_cons, List.foldl_cons, apply_logged hs]
    exact ih

/-- Every state of a log follows on the snapshot before it. -/
theorem Steps.follows {m last : Machine} {states : List State} (h : Steps m states last) {k : Nat}
    {s : State} (hk : states[k]? = some s) :
    s.Follows (m.stackAfter (states.take k)) (m.memoryAfter (states.take k)) := by
  obtain ⟨hlt, hget⟩ := List.getElem?_eq_some_iff.1 hk
  have hcut : states = states.take k ++ s :: states.drop (k + 1) := by
    rw [← hget, List.getElem_cons_drop, List.take_append_drop]
  rw [hcut] at h
  obtain ⟨between, hfront, hback⟩ := steps_append_iff.1 h
  obtain ⟨after, hs, -⟩ := steps_cons_iff.1 hback
  obtain ⟨hstack, hmemory⟩ := hfront.snapshot
  rw [← hstack, ← hmemory]
  exact follows_of_step hs

/-- A log is faithful: each state shows the operands and the results of its instruction, and follows
on the snapshot before it. Hence stack and memory at its end, and those that a run to the end of the
code reports, are found by replaying its entries from the stack and the memory at its beginning. -/
theorem log_replays {m last : Machine} {states : List State} (h : Steps m states last) :
    (∀ (k : Nat) (s : State), states[k]? = some s →
      s.Follows (m.stackAfter (states.take k)) (m.memoryAfter (states.take k))) ∧
    replay m.stack m.memory (states.map State.logged) = (last.stack, last.memory) ∧
    ∀ r left, m.run = .ok r left → last.step = .ok none last →
      let final := replay m.stack m.memory (states.map State.logged)
      r.stack = final.1.reverse ∧ r.memory = final.2.bytes.toList := by
  refine ⟨fun k s => h.follows, h.replay_eq, fun r left hrun hend => ?_⟩
  obtain ⟨states', hsteps, hfinished, rfl⟩ := exists_steps_of_run hrun
  obtain ⟨rfl, rfl⟩ := h.eq_of_ended hsteps (.inl hend) (.inl (step_of_finished hfinished))
  rw [h.replay_eq]
  exact ⟨rfl, rfl⟩

end

/-- A byte stored at address 1. -/
theorem log_replays_store8 :
    let m : Machine := { load [0x53] with stack := [1#256, 7#256] }
    let written : Memory := m.memory.put 1 [7]
    Steps m [⟨⟨0, 0x53, [1#256, 7#256], []⟩, [], written⟩]
        { m with stack := [], memory := written, pc := 1, steps := 1 } ∧
      replay m.stack m.memory [⟨0x53, [1#256, 7#256], []⟩] = ([], written) := by
  intro m written
  have hs : m.step = .ok (some ⟨⟨0, 0x53, [1#256, 7#256], []⟩, [], written⟩)
      { m with stack := [], memory := written, pc := 1, steps := 1 } := rfl
  have hsteps := Steps.step hs (.refl _)
  exact ⟨hsteps, (log_replays hsteps).2.1⟩

end Machine

end WordMachine
