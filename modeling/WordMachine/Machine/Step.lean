import WordMachine.Machine.Policy
import WordMachine.Memory
import WordMachine.Opcode
import WordMachine.Stack

/-! # Single steps

A machine and the execution of one instruction.

* **Attempts.** An operation that can fail yields an `Attempt`: a value or a fault, and in both
  cases the machine that is left behind. The pointer and the step count of a failed step have moved
  past the byte that was fetched.
* **Parts.** An action on the stack or on the memory is an action on the machine, which keeps what
  the action has left of that part, also when it fails (`onStack`, `onMemory`). The handlers of the
  instructions are built from these.
* **Guards before effects.** `execute` alone changes stack and memory. `step` first looks the byte
  up, then `Machine.checkDepth` compares the depth of the stack with the operands that the
  instruction takes and with the limit on what it leaves.
* **Counting.** The count of steps is a 64-bit counter. `HasRoom` says that it can count some steps
  more; what is said about the count after steps is said of machines that have room for them.
* **Code past the end.** An immediate that runs over the end of the code is filled up with zeros,
  and the pointer still moves over all of it. -/

namespace WordMachine

/-- A machine: its code and policy, and the state that steps change. -/
structure Machine where
  code : Bytes
  policy : Policy := {}
  stack : Stack := []
  memory : Memory := {}
  /-- The offset in the code of the next instruction. -/
  pc : Nat := 0
  /-- The number of instructions fetched so far. The counter has 64 bits, see `HasRoom`. -/
  steps : Nat := 0
deriving DecidableEq, Repr

/-- A value or a fault, and the machine left behind. -/
abbrev Attempt (α : Type) := EStateM.Result Fault Machine α

/-- The machine that an attempt leaves behind. -/
def Attempt.machine {α : Type} : Attempt α → Machine
  | .ok _ m => m
  | .error _ m => m

/-- An instruction as it was executed. -/
structure Instruction where
  offset : Nat
  opcode : UInt8
  /-- The words it took, top first. -/
  inputs : List Word
  /-- The words it left in their place, top first. -/
  outputs : List Word
deriving DecidableEq, Repr

namespace Machine

/-- The largest value that an immediate moves the pointer to: the end of a 64-bit address space,
which has room for the code and an immediate behind it. -/
def maxPointer (m : Machine) : Nat := max (Numeral.twoPow64 - 1) (m.code.length + 32)

/-- A machine at the start of its code, with empty stack and memory. -/
def load (code : Bytes) (policy : Policy := {}) : Machine :=
  { code, policy, memory := .empty policy.memoryLimit }

/-- Puts the machine back to the start of its code. -/
def reset (m : Machine) : Machine := load m.code m.policy

/-- The counter of steps can count `n` steps more. -/
def HasRoom (m : Machine) (n : Nat) : Prop := m.steps + n < Numeral.twoPow64

instance (m : Machine) (n : Nat) : Decidable (m.HasRoom n) :=
  inferInstanceAs (Decidable (_ < _))

/-- Whether the pointer is past the code. -/
def finished (m : Machine) : Bool := m.code.length ≤ m.pc

/-- The byte at the pointer, and the machine with the pointer behind it. -/
def fetch (m : Machine) : Option (UInt8 × Machine) :=
  m.code[m.pc]?.map fun byte => (byte, { m with pc := m.pc + 1 })

/-- The word of the `width` bytes at the pointer, zeros standing for those past the end. -/
def immediate (m : Machine) (width : Nat) : Word :=
  let present := (m.code.drop m.pc).take width
  Word.ofBytes (present ++ List.replicate (width - present.length) 0)

/-- Pushes the immediate at the pointer and moves the pointer over it. -/
def pushImmediate (m : Machine) (width : Nat) : Machine :=
  { m with stack := m.stack.push (m.immediate width), pc := min (m.pc + width) m.maxPointer }

/-- An action on a part of the machine. -/
def onPart {σ α : Type} (part : Machine → σ) (put : Machine → σ → Machine)
    (action : EStateM Fault σ α) : EStateM Fault Machine α := fun m =>
  match action (part m) with
  | .ok a left => .ok a (put m left)
  | .error fault left => .error fault (put m left)

/-- An action on the stack. -/
def onStack {α : Type} (action : EStateM Fault Stack α) : EStateM Fault Machine α :=
  onPart Machine.stack (fun m stack => { m with stack }) action

/-- An action on the memory. -/
def onMemory {α : Type} (action : EStateM Fault Memory α) : EStateM Fault Machine α :=
  onPart Machine.memory (fun m memory => { m with memory }) action

/-- Takes the word on top of the stack. -/
def pop : EStateM Fault Machine Word := onStack Stack.pop

/-- Puts a word on top of the stack. -/
def push (w : Word) : EStateM Fault Machine Unit :=
  modify fun m => { m with stack := m.stack.push w }

/-- Takes two words off the stack, an address and a value, and stores the one at the other. -/
def storeWith (store : Nat → Word → EStateM Fault Memory Unit) : EStateM Fault Machine Unit := do
  let address ← pop
  let value ← pop
  onMemory (Memory.storeAt store address value)

/-- What an instruction does, once it has been fetched. Operands are popped one by one, so a stack
that is too shallow is left empty. -/
def handler [Host] : Opcode → EStateM Fault Machine Unit
  | .binary op => do
    let a ← pop
    let b ← pop
    push (op.apply a b)
  | .not => do
    let a ← pop
    push a.not
  | .pop => do
    let _ ← pop
    return
  | .mstore => storeWith Memory.store32
  | .mstore8 => storeWith Memory.store8
  | .push width => modify (·.pushImmediate width.val)

/-- Executes an instruction that has been fetched. -/
def execute [Host] (m : Machine) (op : Opcode) : Attempt Unit := handler op m

/-- The fault of an instruction for which the stack is too shallow or becomes too deep. -/
def checkDepth (m : Machine) (op : Opcode) : Option Fault :=
  let available := m.stack.length
  if available < op.inputs then some (.stackUnderflow op.name op.inputs available)
  else match m.policy.stackLimit with
    | some limit =>
      if limit < available - op.inputs + op.outputs then some (.stackOverflow limit) else none
    | none => none

/-- Executes the instruction at the pointer; there is none at the end of the code. -/
def advance [Host] (m : Machine) : Attempt (Option Instruction) :=
  match m.code[m.pc]? with
  | none => .ok none m
  | some byte =>
    let fetched := { m with pc := m.pc + 1, steps := m.steps + 1 }
    match Opcode.ofByte? byte with
    | none =>
      if m.policy.strict then .error (.invalidOpcode byte m.pc) fetched
      else .ok (some ⟨m.pc, byte, [], []⟩) fetched
    | some op =>
      match m.checkDepth op with
      | some fault => .error fault fetched
      | none =>
        match fetched.execute op with
        | .error fault left => .error fault left
        | .ok _ next =>
          .ok (some ⟨m.pc, byte, m.stack.peekN op.inputs, next.stack.peekN op.outputs⟩) next

/-! ### What a step keeps and what it moves -/

/-- The action touches nothing but stack and memory, whether it fails or not. -/
def Local {α : Type} (action : EStateM Fault Machine α) : Prop :=
  ∀ m, ∃ stack memory, Attempt.machine (action m) = { m with stack, memory }

theorem Local.bind {α β : Type} {x : EStateM Fault Machine α} {f : α → EStateM Fault Machine β}
    (hx : Local x) (hf : ∀ a, Local (f a)) : Local (x >>= f) := by
  intro m
  obtain ⟨stack, memory, hleft⟩ := hx m
  change ∃ stack memory, Attempt.machine (EStateM.bind x f m) = { m with stack, memory }
  unfold EStateM.bind
  cases hxm : x m with
  | error fault left =>
    rw [hxm] at hleft
    exact ⟨stack, memory, hleft⟩
  | ok a left =>
    rw [hxm] at hleft
    obtain ⟨stack', memory', hafter⟩ := hf a left
    obtain rfl : left = { m with stack, memory } := hleft
    exact ⟨stack', memory', hafter⟩

theorem local_onStack {α : Type} (action : EStateM Fault Stack α) : Local (onStack action) := by
  intro m
  unfold onStack onPart
  cases action m.stack <;> exact ⟨_, _, rfl⟩

theorem local_onMemory {α : Type} (action : EStateM Fault Memory α) : Local (onMemory action) := by
  intro m
  unfold onMemory onPart
  cases action m.memory <;> exact ⟨_, _, rfl⟩

theorem local_pop : Local pop := local_onStack Stack.pop

theorem local_push (w : Word) : Local (push w) := fun _ => ⟨_, _, rfl⟩

theorem local_storeWith (store : Nat → Word → EStateM Fault Memory Unit) :
    Local (storeWith store) :=
  local_pop.bind fun _ => local_pop.bind fun _ => local_onMemory _

/-- Every instruction is a push or touches nothing but stack and memory. -/
theorem local_handler [Host] (op : Opcode) :
    Local (handler op) ∨ ∃ width, op = .push width := by
  cases op with
  | binary op =>
    exact .inl (local_pop.bind fun a => local_pop.bind fun b => local_push (op.apply a b))
  | not => exact .inl (local_pop.bind fun a => local_push a.not)
  | pop => exact .inl (local_pop.bind fun _ _ => ⟨_, _, rfl⟩)
  | mstore => exact .inl (local_storeWith Memory.store32)
  | mstore8 => exact .inl (local_storeWith Memory.store8)
  | push width => exact .inr ⟨width, rfl⟩

/-- The effect of an instruction leaves code, policy and step count alone and never moves a pointer
within the address space back. -/
theorem execute_frame [Host] (m : Machine) (op : Opcode) (hpc : m.pc ≤ m.maxPointer) :
    (m.execute op).machine.code = m.code ∧ (m.execute op).machine.policy = m.policy ∧
      (m.execute op).machine.steps = m.steps ∧ m.pc ≤ (m.execute op).machine.pc := by
  rcases local_handler op with hlocal | ⟨width, rfl⟩
  · obtain ⟨stack, memory, hleft⟩ := hlocal m
    rw [execute, hleft]
    exact ⟨rfl, rfl, rfl, Nat.le_refl m.pc⟩
  · have hle : m.pc ≤ min (m.pc + width.val) m.maxPointer := by omega
    exact ⟨rfl, rfl, rfl, hle⟩

/-- A step leaves code and policy alone, and counts itself and moves the pointer unless the code has
ended. -/
theorem advance_frame [Host] (m : Machine) :
    m.advance.machine.code = m.code ∧ m.advance.machine.policy = m.policy ∧
      (m.pc < m.code.length →
        m.pc < m.advance.machine.pc ∧ m.advance.machine.steps = m.steps + 1) := by
  unfold advance
  cases hb : m.code[m.pc]? with
  | none => exact ⟨rfl, rfl, fun h => by simp [List.getElem?_eq_getElem h] at hb⟩
  | some byte =>
    have hlt : m.pc < m.code.length := (List.getElem?_eq_some_iff.1 hb).1
    simp only
    cases Opcode.ofByte? byte with
    | none => cases m.policy.strict <;> simp [Attempt.machine]
    | some op =>
      simp only
      cases m.checkDepth op with
      | some fault => simp [Attempt.machine]
      | none =>
        have hframe := execute_frame { m with pc := m.pc + 1, steps := m.steps + 1 } op
          (by simp only [maxPointer]; omega)
        simp only
        revert hframe
        cases execute { m with pc := m.pc + 1, steps := m.steps + 1 } op <;>
          simp only [Attempt.machine] <;> intro hframe <;>
          exact ⟨hframe.1, hframe.2.1, fun _ => ⟨by omega, hframe.2.2.1⟩⟩

theorem code_of_advance_ok [Host] {m next : Machine} {i : Option Instruction}
    (h : m.advance = .ok i next) : next.code = m.code := by
  have := (advance_frame m).1
  rwa [h] at this

theorem pc_lt_of_advance_ok [Host] {m next : Machine} {i : Option Instruction}
    (hpc : m.pc < m.code.length) (h : m.advance = .ok i next) : m.pc < next.pc := by
  have := ((advance_frame m).2.2 hpc).1
  rwa [h] at this

end Machine

end WordMachine
