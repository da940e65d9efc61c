import WordMachine.Proofs.Machine.Skeleton

/-! # Outlines

What an execution shows apart from words and bytes: pointers, opcodes, depths and faults.

* **The log of a run.** `runLog` are the states that a run goes through, under its budget. It is a
  log of steps, and the run ends as it does from where they lead (`exists_steps_runLog`).
* **Two runs.** `Machine.Resembles` relates machines that differ in nothing but words, the bytes of
  memory and the bytes of immediates. A byte that passes in both keeps them alike, and only a store
  can tell them apart, by its address (`Resembles.faultOf_eq`). So their runs have the same outline,
  unless a store fails (`Resembles.run`). -/

namespace WordMachine

namespace Machine

section

variable [Host]

/-- The states that a run goes through. -/
def runLog (m : Machine) : List State :=
  if _h : m.code.length ≤ m.pc ∨ m.exhausted.isSome then []
  else match _hs : m.step with
    | .ok (some s) next => s :: next.runLog
    | _ => []
termination_by m.code.length - m.pc
decreasing_by
  obtain ⟨byte, -, -, -, rfl⟩ := step_eq_some_iff.1 _hs
  rw [next_code, next_pc]
  omega

theorem runLog_of_finished {m : Machine} (h : m.code.length ≤ m.pc) : m.runLog = [] := by
  rw [runLog]
  simp [h]

/-- Before the end of the code a run looks at its budget, then executes the byte at the pointer. -/
theorem runLog_eq {m : Machine} {byte : UInt8} (hbyte : m.code[m.pc]? = some byte) :
    m.runLog =
      match m.exhausted with
      | some _ => []
      | none =>
        match m.faultOf byte with
        | some _ => []
        | none => m.entry byte :: (m.next byte).runLog := by
  have hpc : ¬ m.code.length ≤ m.pc := Nat.not_le.2 (List.getElem?_eq_some_iff.1 hbyte).1
  rw [runLog]
  cases hbudget : m.exhausted with
  | some limit => simp [hpc]
  | none =>
    have hstep := step_eq hbyte
    simp only [hpc, Option.isSome_none, Bool.false_eq_true, or_self, dite_false]
    cases hfault : m.faultOf byte with
    | none =>
      rw [hfault] at hstep
      split
      · rename_i hs
        cases hstep.symm.trans hs
        rfl
      · rename_i hs
        exact absurd hstep (hs _ _)
    | some fault =>
      rw [hfault] at hstep
      split
      · rename_i hs
        cases hstep.symm.trans hs
      · rfl

/-- The log of a run is a log of steps, and the run ends as it does from where they lead. -/
theorem exists_steps_runLog (m : Machine) : ∃ last, Steps m m.runLog last ∧ m.run = last.run := by
  induction m using code_induction with
  | finished m hend =>
    rw [runLog_of_finished hend]
    exact ⟨m, .refl m, rfl⟩
  | next m byte hbyte ih =>
    rw [runLog_eq hbyte]
    cases hbudget : m.exhausted with
    | some limit => exact ⟨m, .refl m, rfl⟩
    | none =>
      cases hfault : m.faultOf byte with
      | some fault => exact ⟨m, .refl m, rfl⟩
      | none =>
        obtain ⟨last, hsteps, hrun⟩ := ih
        refine ⟨last, .of_next hbyte hfault hsteps, ?_⟩
        rw [← hrun, run_eq hbyte, hbudget, hfault]

end

/-! ### Two runs -/

/-- Two machines under one policy that differ at most in words, in the bytes of memory and in the
bytes of immediates. -/
structure Resembles (m m' : Machine) : Prop where
  policy_eq : m'.policy = m.policy
  pc_eq : m'.pc = m.pc
  steps_eq : m'.steps = m.steps
  depth_eq : m'.stack.length = m.stack.length
  length_eq : m'.code.length = m.code.length
  opcode_eq : ∀ i ∈ skeleton m.code m.pc, m'.code[i.1]? = some i.2

end Machine

/-- What a reported state shows apart from words and bytes: pointer, opcode and depth. -/
def State.outline (s : State) : Nat × UInt8 × Nat :=
  (s.instruction.offset, s.instruction.opcode, s.stack.length)

/-- What a machine shows apart from words and bytes: pointer, count and depth. -/
def Machine.outline (m : Machine) : Nat × Nat × Nat := (m.pc, m.steps, m.stack.length)

namespace Attempt

/-- The fault of an attempt, if it has one. -/
def fault? : Attempt Report → Option Fault
  | .ok _ _ => none
  | .error fault _ => some fault

/-- Whether an attempt fails in a store. -/
def failsInStore (a : Attempt Report) : Bool := a.fault?.any Fault.ofStore

/-- The fault of an attempt, and what the machine shows that it leaves behind. -/
def outline (a : Attempt Report) : Option Fault × Nat × Nat × Nat :=
  (a.fault?, a.machine.outline)

@[simp] theorem outline_ok (r : Report) (m : Machine) :
    outline (.ok r m) = (none, m.outline) := rfl

@[simp] theorem outline_error (fault : Fault) (m : Machine) :
    outline (.error fault m) = (some fault, m.outline) := rfl

@[simp] theorem failsInStore_error (fault : Fault) (m : Machine) :
    failsInStore (.error fault m) = fault.ofStore := rfl

end Attempt

namespace Machine

namespace Resembles

variable {m m' : Machine}

theorem getElem?_code (h : Resembles m m') {byte : UInt8} (hbyte : m.code[m.pc]? = some byte) :
    m'.code[m'.pc]? = some byte := by
  rw [h.pc_eq]
  refine h.opcode_eq (m.pc, byte) ?_
  rw [skeleton_eq hbyte]
  exact List.mem_cons_self

/-- The check of the depth looks at the number of words and at the policy. -/
theorem checkDepth_eq (h : Resembles m m') (op : Opcode) : m'.checkDepth op = m.checkDepth op := by
  simp only [checkDepth, h.depth_eq, h.policy_eq]

theorem exhausted_eq (h : Resembles m m') : m'.exhausted = m.exhausted := by
  simp only [exhausted, h.policy_eq, h.steps_eq]

theorem outline_eq (h : Resembles m m') : m'.outline = m.outline := by
  simp only [outline, h.pc_eq, h.steps_eq, h.depth_eq]

/-- What a faulty byte leaves behind, unless it is a store. -/
theorem outline_stopped (h : Resembles m m') {fault : Fault} (hfault : fault.ofStore = false) :
    (m'.stopped fault).outline = (m.stopped fault).outline := by
  simp [outline, stopped, hfault, h.pc_eq, h.steps_eq, h.depth_eq]

variable [Host]

/-- A byte has the same fault, unless one of the machines refuses a store. -/
theorem faultOf_eq (h : Resembles m m') (byte : UInt8) :
    (m.faultOf byte).any Fault.ofStore = true ∨ (m'.faultOf byte).any Fault.ofStore = true ∨
      m'.faultOf byte = m.faultOf byte := by
  unfold faultOf
  cases Opcode.ofByte? byte with
  | none => simp only [h.policy_eq, h.pc_eq, or_true]
  | some op =>
    simp only [h.checkDepth_eq]
    cases m.checkDepth op with
    | some fault => simp
    | none =>
      simp only [Option.none_or]
      cases hm : op.refusal (m.operands op) m.memory with
      | some fault => simp [(Opcode.ofStore_of_refusal hm).1]
      | none =>
        cases hm' : op.refusal (m'.operands op) m'.memory with
        | some fault => simp [(Opcode.ofStore_of_refusal hm').1]
        | none => simp

/-- A byte that passes in both machines keeps them alike. -/
theorem next (h : Resembles m m') {byte : UInt8} (hbyte : m.code[m.pc]? = some byte)
    (hfault : m.faultOf byte = none) (hfault' : m'.faultOf byte = none) :
    Resembles (m.next byte) (m'.next byte) where
  policy_eq := by simp [h.policy_eq]
  pc_eq := by simp [h.pc_eq]
  steps_eq := by simp [h.steps_eq]
  depth_eq := by
    have hm := length_stack_next hfault
    have hm' := length_stack_next hfault'
    rw [h.depth_eq] at hm'
    omega
  length_eq := by simp [h.length_eq]
  opcode_eq := by
    intro i hi
    rw [next_code] at hi ⊢
    rw [next_pc] at hi
    refine h.opcode_eq i ?_
    rw [skeleton_eq hbyte]
    exact List.mem_cons_of_mem _ hi

theorem outline_entry (h : Resembles m m') {byte : UInt8} (hbyte : m.code[m.pc]? = some byte)
    (hfault : m.faultOf byte = none) (hfault' : m'.faultOf byte = none) :
    (m'.entry byte).outline = (m.entry byte).outline := by
  simp [State.outline, entry, h.pc_eq, (h.next hbyte hfault hfault').depth_eq]

/-- The runs of two machines that resemble each other have the same outline, unless one of them
fails in a store. -/
theorem run (h : Resembles m m') :
    m.run.failsInStore = true ∨ m'.run.failsInStore = true ∨
      (m'.runLog.map State.outline = m.runLog.map State.outline ∧
        m'.run.outline = m.run.outline) := by
  induction m using code_induction generalizing m' with
  | finished m hend =>
    have hend' : m'.code.length ≤ m'.pc := by
      rw [h.length_eq, h.pc_eq]
      exact hend
    rw [run_of_finished hend, run_of_finished hend', runLog_of_finished hend,
      runLog_of_finished hend']
    simp [h.outline_eq]
  | next m byte hbyte ih =>
    have hbyte' := h.getElem?_code hbyte
    rw [run_eq hbyte, run_eq hbyte', runLog_eq hbyte, runLog_eq hbyte', h.exhausted_eq]
    cases m.exhausted with
    | some limit => simp [h.outline_eq]
    | none =>
      -- A fault of a store is that of the whole run; any other fault is the same in both.
      rcases h.faultOf_eq byte with hstore | hstore | hsame
      · obtain ⟨fault, hfault, htaken⟩ := (Option.any_eq_true _ _).1 hstore
        exact .inl (by simp [hfault, htaken])
      · obtain ⟨fault, hfault, htaken⟩ := (Option.any_eq_true _ _).1 hstore
        exact .inr (.inl (by simp [hfault, htaken]))
      · rw [hsame]
        cases hfault : m.faultOf byte with
        | some fault =>
          cases htaken : fault.ofStore with
          | true => simp [htaken]
          | false => simp [h.outline_stopped htaken]
        | none =>
          rw [hfault] at hsame
          rcases ih (h.next hbyte hfault hsame) with hm | hm' | ⟨hlog, hrun⟩
          · exact .inl hm
          · exact .inr (.inl hm')
          · refine .inr (.inr ⟨?_, hrun⟩)
            simp only [List.map_cons, hlog, h.outline_entry hbyte hfault hsame]

end Resembles

/-- The skeleton of the code decides on the depth of the stack. After any number of steps that pass,
the depth is the sum of what the instructions so far gain; the next step underflows where that is
less than its instruction takes, and overflows where the operands are there and the next sum is past
the limit. Hence machines that differ only in words, in the bytes of memory and in the bytes of
immediates run through the same pointers, opcodes and depths and have the same fault, unless a store
fails in one of the two. -/
theorem depth_decided_by_skeleton [Host] (m : Machine) :
    let instructions := skeleton m.code m.pc
    let depth := depthBefore m.stack.length instructions
    (∀ states last, Steps m states last →
      states.map (fun s => (s.instruction.offset, s.instruction.opcode)) =
          instructions.take states.length ∧
        (last.stack.length : Int) = depth states.length ∧
        (∀ name required available,
          (∃ left, last.step = .error (.stackUnderflow name required available) left) ↔
            ∃ offset byte op, instructions[states.length]? = some (offset, byte) ∧
              Opcode.ofByte? byte = some op ∧ depth states.length < op.inputs ∧
              name = op.name ∧ required = op.inputs ∧
              (available : Int) = depth states.length) ∧
        ∀ limit, (∃ left, last.step = .error (.stackOverflow limit) left) ↔
          ∃ offset byte op, instructions[states.length]? = some (offset, byte) ∧
            Opcode.ofByte? byte = some op ∧ op.inputs ≤ depth states.length ∧
            m.policy.stackLimit = some limit ∧ limit < depth (states.length + 1)) ∧
      (∃ last, Steps m m.runLog last ∧ m.run = last.run) ∧
      ∀ m', Resembles m m' →
        m.run.failsInStore = true ∨ m'.run.failsInStore = true ∨
          (m'.runLog.map State.outline = m.runLog.map State.outline ∧
            m'.run.outline = m.run.outline) := by
  intro instructions depth
  refine ⟨fun states last hsteps => ⟨?_, hsteps.depth, fun _ _ _ => hsteps.underflow_iff,
    fun _ => hsteps.overflow_iff⟩, exists_steps_runLog m, fun m' h => h.run⟩
  have hcut : instructions = _ := hsteps.skeleton_eq
  rw [hcut, List.take_left' (List.length_map _)]

end Machine

end WordMachine
