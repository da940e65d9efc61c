import WordMachine.Machine.Run
import WordMachine.Proofs.Memory.Store

/-! # Transitions

One step of a machine as a guard and a total transition.

* **The guard.** `faultOf m byte` is the fault of executing a byte, if there is one. It reads the
  policy, the depth of the stack, and for a store the address and the size of memory.
* **The transition.** `next m byte` is the machine after a byte that passes the guard. Stack and
  memory change by `Opcode.results` and `Opcode.memoryAfter`, which see the operands and the
  immediate and nothing else; the rest of the stack stays where it was.
* **The fault.** `stopped m fault` is the machine that a faulty byte leaves behind.

`advance_eq` says that these three are all that a step does. What is proved about steps below
follows from it, without another look at the instructions one by one. -/

namespace WordMachine

/-- A stack that is deep enough has a word on top. -/
theorem Stack.exists_one {s : Stack} (h : 1 ≤ s.length) : ∃ a rest, s = a :: rest :=
  List.exists_cons_of_length_pos h

/-- A stack that is deep enough has two words on top. -/
theorem Stack.exists_two {s : Stack} (h : 2 ≤ s.length) : ∃ a b rest, s = a :: b :: rest := by
  obtain ⟨a, s', rfl⟩ := exists_one (Nat.le_trans (by decide) h)
  obtain ⟨b, rest, rfl⟩ := exists_one (Nat.le_of_succ_le_succ h)
  exact ⟨a, b, rest, rfl⟩

/-- Whether a store ends in this fault, with its operands already taken off the stack. -/
def Fault.ofStore : Fault → Bool
  | .invalidMemoryOffset _ => true
  | .memoryLimitExceeded _ _ => true
  | .outOfMemory _ => true
  | _ => false

theorem Memory.ofStore_of_refusal [Host] {m : Memory} {address : Word} {fault : Fault}
    (h : m.refusal address = some fault) : fault.ofStore = true := by
  rcases refusal_eq_some_iff.1 h with ⟨-, rfl⟩ | ⟨-, -, ⟨limit, -, -, rfl⟩ | ⟨-, -, rfl⟩⟩ <;> rfl

namespace Opcode

theorem immediateOfByte_of_ofByte? {byte : UInt8} {op : Opcode} (hop : ofByte? byte = some op) :
    immediateOfByte byte = op.immediate := by
  rw [immediateOfByte, hop]
  rfl

/-- The words that an instruction puts on the stack, for its immediate and the words it takes. -/
def results (op : Opcode) (word : Word) (args : List Word) : List Word :=
  match op, args with
  | binary op, [a, b] => [op.apply a b]
  | not, [a] => [a.not]
  | push _, _ => [word]
  | _, _ => []

/-- Memory after an instruction, for the words it takes. -/
def memoryAfter (op : Opcode) (args : List Word) (m : Memory) : Memory :=
  match op, args with
  | mstore, [address, value] => m.put address.toNat value.toBytes
  | mstore8, [address, value] => m.put address.toNat [value.lowByte]
  | _, _ => m

/-- The fault of an instruction that has its operands: only stores have one. -/
def refusal [Host] (op : Opcode) (args : List Word) (m : Memory) : Option Fault :=
  match op, args with
  | mstore, address :: _ => m.refusal address
  | mstore8, address :: _ => m.refusal address
  | _, _ => none

theorem exists_pair {args : List Word} (h : args.length = 2) : ∃ a b, args = [a, b] := by
  obtain ⟨a, b, rest, rfl⟩ := Stack.exists_two (Nat.le_of_eq h.symm)
  have hrest : rest = [] := List.eq_nil_of_length_eq_zero (by simpa using h)
  exact ⟨a, b, by rw [hrest]⟩

theorem length_results {op : Opcode} {word : Word} {args : List Word}
    (h : args.length = op.inputs) : (op.results word args).length = op.outputs := by
  cases op with
  | binary op =>
    obtain ⟨a, b, rfl⟩ := exists_pair h
    rfl
  | not =>
    obtain ⟨a, rfl⟩ := List.length_eq_one_iff.1 h
    rfl
  | _ => rfl

theorem size_le_memoryAfter (op : Opcode) (args : List Word) (m : Memory) :
    m.size ≤ (op.memoryAfter args m).size := by
  unfold memoryAfter
  split
  · rw [Memory.size_put]
    exact Nat.le_max_left _ _
  · rw [Memory.size_put]
    exact Nat.le_max_left _ _
  · exact Nat.le_refl _

theorem ofStore_of_refusal [Host] {op : Opcode} {args : List Word} {m : Memory} {fault : Fault}
    (h : op.refusal args m = some fault) : fault.ofStore = true ∧ op.inputs = 2 := by
  unfold refusal at h
  split at h
  · exact ⟨Memory.ofStore_of_refusal h, rfl⟩
  · exact ⟨Memory.ofStore_of_refusal h, rfl⟩
  · cases h

end Opcode

namespace Machine

/-- The machine once a byte has been fetched. -/
def fetched (m : Machine) : Machine := { m with pc := m.pc + 1, steps := m.steps + 1 }

/-- The words that an instruction takes from the stack. -/
def operands (m : Machine) (op : Opcode) : List Word := m.stack.take op.inputs

/-- The word that follows the byte at the pointer, of the width that an instruction has. -/
def following (m : Machine) (op : Opcode) : Word := m.fetched.immediate op.immediate

/-- The words that the instruction at the pointer puts on the stack. -/
def results (m : Machine) (op : Opcode) : List Word :=
  op.results (m.following op) (m.operands op)

/-- The fault of executing a byte, if there is one. -/
def faultOf [Host] (m : Machine) (byte : UInt8) : Option Fault :=
  match Opcode.ofByte? byte with
  | none => if m.policy.strict then some (.invalidOpcode byte m.pc) else none
  | some op => (m.checkDepth op).or (op.refusal (m.operands op) m.memory)

/-- The machine after a byte without fault. -/
def next (m : Machine) (byte : UInt8) : Machine :=
  match Opcode.ofByte? byte with
  | none => m.fetched
  | some op =>
    { m.fetched with
      stack := m.results op ++ m.stack.drop op.inputs
      memory := op.memoryAfter (m.operands op) m.memory
      pc := m.pc + 1 + op.immediate }

/-- The machine that a fault leaves behind. -/
def stopped (m : Machine) (fault : Fault) : Machine :=
  { m.fetched with stack := if fault.ofStore then m.stack.drop 2 else m.stack }

/-- What is reported about a byte without fault. -/
def executed (m : Machine) (byte : UInt8) : Instruction :=
  match Opcode.ofByte? byte with
  | none => ⟨m.pc, byte, [], []⟩
  | some op => ⟨m.pc, byte, m.operands op, m.results op⟩

@[simp] theorem fetched_code (m : Machine) : m.fetched.code = m.code := rfl
@[simp] theorem fetched_policy (m : Machine) : m.fetched.policy = m.policy := rfl
@[simp] theorem fetched_stack (m : Machine) : m.fetched.stack = m.stack := rfl
@[simp] theorem fetched_memory (m : Machine) : m.fetched.memory = m.memory := rfl
@[simp] theorem fetched_pc (m : Machine) : m.fetched.pc = m.pc + 1 := rfl
@[simp] theorem fetched_steps (m : Machine) : m.fetched.steps = m.steps + 1 := rfl

theorem length_operands {m : Machine} {op : Opcode} (h : op.inputs ≤ m.stack.length) :
    (m.operands op).length = op.inputs := by
  rw [operands, List.length_take]
  exact Nat.min_eq_left h

@[simp] theorem next_code (m : Machine) (byte : UInt8) : (m.next byte).code = m.code := by
  unfold next; split <;> rfl

@[simp] theorem next_policy (m : Machine) (byte : UInt8) : (m.next byte).policy = m.policy := by
  unfold next; split <;> rfl

@[simp] theorem next_steps (m : Machine) (byte : UInt8) : (m.next byte).steps = m.steps + 1 := by
  unfold next; split <;> rfl

@[simp] theorem next_pc (m : Machine) (byte : UInt8) :
    (m.next byte).pc = m.pc + 1 + Opcode.immediateOfByte byte := by
  unfold next Opcode.immediateOfByte
  cases Opcode.ofByte? byte <;> rfl

theorem next_of_unknown {m : Machine} {byte : UInt8} (hop : Opcode.ofByte? byte = none) :
    m.next byte = m.fetched := by
  rw [next, hop]

/-- A known byte puts its results in the place of its operands. -/
theorem next_stack {m : Machine} {byte : UInt8} {op : Opcode}
    (hop : Opcode.ofByte? byte = some op) :
    (m.next byte).stack = m.results op ++ m.stack.drop op.inputs := by
  rw [next, hop]

theorem next_memory {m : Machine} {byte : UInt8} {op : Opcode}
    (hop : Opcode.ofByte? byte = some op) :
    (m.next byte).memory = op.memoryAfter (m.operands op) m.memory := by
  rw [next, hop]

/-- The entry of a known byte shows its operands and results. -/
theorem executed_of_known {m : Machine} {byte : UInt8} {op : Opcode}
    (hop : Opcode.ofByte? byte = some op) :
    m.executed byte = ⟨m.pc, byte, m.operands op, m.results op⟩ := by
  rw [executed, hop]

theorem executed_of_unknown {m : Machine} {byte : UInt8} (hop : Opcode.ofByte? byte = none) :
    m.executed byte = ⟨m.pc, byte, [], []⟩ := by
  rw [executed, hop]

/-- The results are as many as the instruction should put on the stack. -/
theorem length_results {m : Machine} {op : Opcode} (h : op.inputs ≤ m.stack.length) :
    (m.results op).length = op.outputs :=
  Opcode.length_results (length_operands h)

/-- The results are what is found on top of the stack afterwards. -/
theorem take_results {m : Machine} {op : Opcode} (h : op.inputs ≤ m.stack.length) (s : Stack) :
    (m.results op ++ s).take op.outputs = m.results op := by
  rw [← length_results h, List.take_left]

/-- A byte that passes takes the operands of its instruction and leaves as many results. -/
theorem length_next_stack {m : Machine} {byte : UInt8} {op : Opcode}
    (hop : Opcode.ofByte? byte = some op) (hargs : op.inputs ≤ m.stack.length) :
    (m.next byte).stack.length = m.stack.length - op.inputs + op.outputs := by
  simp only [next, hop, List.length_append, length_results hargs, List.length_drop]
  omega

/-- Memory never shrinks. -/
theorem size_le_next (m : Machine) (byte : UInt8) : m.memory.size ≤ (m.next byte).memory.size := by
  unfold next
  cases Opcode.ofByte? byte with
  | none => exact Nat.le_refl _
  | some op => exact Opcode.size_le_memoryAfter op (m.operands op) m.memory

@[simp] theorem executed_offset (m : Machine) (byte : UInt8) :
    (m.executed byte).offset = m.pc := by
  unfold executed; split <;> rfl

@[simp] theorem executed_opcode (m : Machine) (byte : UInt8) :
    (m.executed byte).opcode = byte := by
  unfold executed; split <;> rfl

/-! ### The depth check -/

/-- The two reasons for the check to fail. -/
theorem checkDepth_eq_some_iff {m : Machine} {op : Opcode} {fault : Fault} :
    m.checkDepth op = some fault ↔
      (m.stack.length < op.inputs ∧
          fault = .stackUnderflow op.name op.inputs m.stack.length) ∨
        (op.inputs ≤ m.stack.length ∧ ∃ limit, m.policy.stackLimit = some limit ∧
          limit < m.stack.length - op.inputs + op.outputs ∧ fault = .stackOverflow limit) := by
  rw [@eq_comm _ (m.checkDepth op)]
  unfold checkDepth
  by_cases hshallow : m.stack.length < op.inputs
  · simp [hshallow, Nat.not_le.2 hshallow]
  · cases hlimit : m.policy.stackLimit with
    | none => simp [hshallow]
    | some limit =>
      by_cases hdeep : limit < m.stack.length - op.inputs + op.outputs
      · simp [hshallow, hdeep, Nat.not_lt.1 hshallow]
      · simp [hshallow, hdeep]

/-- The check passes if the operands are there and the limit, if there is one, is kept. -/
theorem checkDepth_eq_none_iff {m : Machine} {op : Opcode} :
    m.checkDepth op = none ↔
      op.inputs ≤ m.stack.length ∧ ∀ limit, m.policy.stackLimit = some limit →
        m.stack.length - op.inputs + op.outputs ≤ limit := by
  unfold checkDepth
  by_cases hshallow : m.stack.length < op.inputs
  · simp [hshallow, Nat.not_le.2 hshallow]
  · cases hlimit : m.policy.stackLimit with
    | none => simp [hshallow, Nat.not_lt.1 hshallow]
    | some limit => simp [hshallow, Nat.not_lt.1 hshallow]

theorem ofStore_of_checkDepth {m : Machine} {op : Opcode} {fault : Fault}
    (h : m.checkDepth op = some fault) : fault.ofStore = false := by
  rcases checkDepth_eq_some_iff.1 h with ⟨-, rfl⟩ | ⟨-, limit, -, -, rfl⟩ <;> rfl

/-! ### The step -/

variable [Host]

/-- A known byte passes if the check of the depth passes and no store is refused. -/
theorem faultOf_eq_none_iff {m : Machine} {byte : UInt8} {op : Opcode}
    (hop : Opcode.ofByte? byte = some op) :
    m.faultOf byte = none ↔
      m.checkDepth op = none ∧ op.refusal (m.operands op) m.memory = none := by
  simp only [faultOf, hop, Option.or_eq_none_iff]

/-- A known byte that passes has its operands. -/
theorem inputs_le_of_pass {m : Machine} {byte : UInt8} {op : Opcode}
    (hop : Opcode.ofByte? byte = some op) (h : m.faultOf byte = none) :
    op.inputs ≤ m.stack.length :=
  (checkDepth_eq_none_iff.1 ((faultOf_eq_none_iff hop).1 h).1).1

/-- A store that passes takes an address and a value and stores the one at the other. -/
theorem store_of_pass {m : Machine} {byte : UInt8} {op : Opcode}
    {store : Nat → Word → EStateM Fault Memory Unit} (hop : Opcode.ofByte? byte = some op)
    (h : m.faultOf byte = none) (htwo : op.inputs = 2)
    (hstore : ∀ address value, Memory.storeAt store address value m.memory =
      match op.refusal [address, value] m.memory with
      | some fault => .error fault m.memory
      | none => .ok () (op.memoryAfter [address, value] m.memory)) :
    ∃ address value rest, m.stack = address :: value :: rest ∧
      Memory.storeAt store address value m.memory = .ok () (m.next byte).memory := by
  have hdepth : 2 ≤ m.stack.length := htwo ▸ inputs_le_of_pass hop h
  obtain ⟨address, value, rest, hstack⟩ := Stack.exists_two hdepth
  have hargs : m.operands op = [address, value] := by
    rw [operands, htwo, hstack]
    rfl
  have hpass : op.refusal [address, value] m.memory = none :=
    hargs ▸ ((faultOf_eq_none_iff hop).1 h).2
  refine ⟨address, value, rest, hstack, ?_⟩
  rw [hstore, hpass, next_memory hop, hargs]

omit [Host] in
/-- An action that begins with taking a word goes on with the word on top. -/
theorem pop_bind {α : Type} {m : Machine} {a : Word} {rest : Stack} (hstack : m.stack = a :: rest)
    (f : Word → EStateM Fault Machine α) :
    (pop >>= f) m = f a { m with stack := rest } := by
  have hpop : pop m = .ok a { m with stack := rest } := by
    simp only [pop, onStack, onPart, hstack, Stack.pop]
  simp only [bind, EStateM.bind, hpop]

/-- A store that has its operands is refused, or drops them and writes. What the store leaves of the
memory is the memory of the machine, whether it is refused or not. -/
theorem storeWith_eq {m : Machine} {address value : Word} {rest : Stack}
    {store : Nat → Word → EStateM Fault Memory Unit} {after : Memory}
    (hstack : m.stack = address :: value :: rest)
    (hstore : Memory.storeAt store address value m.memory =
      match m.memory.refusal address with
      | some fault => .error fault m.memory
      | none => .ok () after) :
    storeWith store m =
      match m.memory.refusal address with
      | some fault => .error fault { m with stack := rest }
      | none => .ok () { m with stack := rest, memory := after } := by
  rw [storeWith, pop_bind hstack, pop_bind rfl, onMemory, onPart]
  simp only [hstore]
  cases m.memory.refusal address <;> rfl

/-- An instruction that has its operands is refused, or puts its results in their place. -/
theorem execute_eq {m : Machine} {op : Opcode} (hargs : op.inputs ≤ m.stack.length)
    (hpc : m.pc + op.immediate ≤ m.maxPointer) :
    m.execute op =
      match op.refusal (m.operands op) m.memory with
      | some fault => .error fault { m with stack := m.stack.drop op.inputs }
      | none => .ok ()
        { m with
          stack := op.results (m.immediate op.immediate) (m.operands op) ++
            m.stack.drop op.inputs
          memory := op.memoryAfter (m.operands op) m.memory
          pc := m.pc + op.immediate } := by
  cases op with
  | push width =>
    have hmin : min (m.pc + width.val) m.maxPointer = m.pc + width.val := Nat.min_eq_left hpc
    have hpushed : m.execute (.push width) = .ok () (m.pushImmediate width.val) := rfl
    rw [hpushed, pushImmediate, hmin]
    rfl
  | binary op =>
    obtain ⟨a, b, rest, hstack⟩ := Stack.exists_two hargs
    rw [execute, handler, pop_bind hstack, pop_bind rfl, operands, hstack]
    rfl
  | not =>
    obtain ⟨a, rest, hstack⟩ := Stack.exists_one hargs
    rw [execute, handler, pop_bind hstack, operands, hstack]
    rfl
  | pop =>
    obtain ⟨a, rest, hstack⟩ := Stack.exists_one hargs
    rw [execute, handler, pop_bind hstack, operands, hstack]
    rfl
  | mstore =>
    obtain ⟨a, b, rest, hstack⟩ := Stack.exists_two hargs
    rw [execute, handler, storeWith_eq hstack (m.memory.store32_eq a b), operands, hstack]
    rfl
  | mstore8 =>
    obtain ⟨a, b, rest, hstack⟩ := Stack.exists_two hargs
    rw [execute, handler, storeWith_eq hstack (m.memory.store8_eq a b), operands, hstack]
    rfl

/-- A step at a known byte that passes the depth check executes the instruction. -/
theorem advance_of_checkDepth {m : Machine} {byte : UInt8} {op : Opcode}
    (hbyte : m.code[m.pc]? = some byte) (hop : Opcode.ofByte? byte = some op)
    (hdepth : m.checkDepth op = none) :
    m.advance =
      match m.fetched.execute op with
      | .error fault left => .error fault left
      | .ok _ after => .ok (some ⟨m.pc, byte, m.operands op, after.stack.take op.outputs⟩) after := by
  unfold advance
  rw [hbyte]
  simp only [hop, hdepth]
  rfl

/-- A step is the transition if there is no fault, and otherwise the fault. -/
theorem advance_eq {m : Machine} {byte : UInt8} (hbyte : m.code[m.pc]? = some byte) :
    m.advance =
      match m.faultOf byte with
      | some fault => .error fault (m.stopped fault)
      | none => .ok (some (m.executed byte)) (m.next byte) := by
  unfold faultOf next executed
  cases hop : Opcode.ofByte? byte with
  | none =>
    unfold advance
    rw [hbyte]
    cases hstrict : m.policy.strict <;> simp [hop, stopped, Fault.ofStore, fetched]
  | some op =>
    cases hdepth : m.checkDepth op with
    | some fault =>
      have hstay : fault.ofStore = false := ofStore_of_checkDepth hdepth
      unfold advance
      rw [hbyte]
      simp [hop, hdepth, stopped, hstay, fetched]
    | none =>
      have hargs : op.inputs ≤ m.stack.length := (checkDepth_eq_none_iff.1 hdepth).1
      have hroom : m.pc + 1 + op.immediate ≤ m.maxPointer := by
        have hpc : m.pc < m.code.length := (List.getElem?_eq_some_iff.1 hbyte).1
        have hle : op.immediate ≤ 32 :=
          Opcode.immediateOfByte_of_ofByte? hop ▸ Opcode.immediateOfByte_le byte
        simp only [maxPointer]
        omega
      have hexec : m.fetched.execute op = _ := execute_eq hargs hroom
      have hsame : m.fetched.operands op = m.operands op := rfl
      rw [hsame, fetched_memory, fetched_stack, fetched_pc] at hexec
      rw [advance_of_checkDepth hbyte hop hdepth, hexec]
      cases hstore : op.refusal (m.operands op) m.memory with
      | some fault =>
        obtain ⟨htaken, htwo⟩ := Opcode.ofStore_of_refusal hstore
        simp [hdepth, hstore, stopped, htaken, htwo]
      | none =>
        have htake := take_results hargs (m.stack.drop op.inputs)
        simp only [results, following] at htake ⊢
        simp [hdepth, hstore, htake]

end Machine

end WordMachine
