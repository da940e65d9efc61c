import WordMachine.Proofs.Machine.Immediate
import WordMachine.Proofs.Machine.Steps
import WordMachine.Proofs.Word.Arithmetic

/-! # The table of instructions

The table says of every byte that names an instruction what it is called and what it does: an
`Effect` on the words at the top of the stack, on memory, and on the pointer. It is written down row
by row, byte by byte, without reference to how bytes are decoded and executed.

`step_follows_table` says that a step which passes does what the row of its byte says, that it
skips a byte without a row, and that it changes nothing that the row does not mention. -/

namespace WordMachine

/-- What an instruction does. -/
inductive Effect where
  /-- Replaces two words, the first from the top of the stack, by one. -/
  | binary (f : Word → Word → Word)
  /-- Replaces the word on top. -/
  | unary (f : Word → Word)
  /-- Drops the word on top. -/
  | drop
  /-- Takes an address and a value, and writes the value to memory. -/
  | store (write : Nat → Word → EStateM Fault Memory Unit)
  /-- Pushes the number that the following bytes denote. -/
  | push (width : Nat)

namespace Effect

/-- The number of bytes behind the instruction that belong to it. -/
def width : Effect → Nat
  | push width => width
  | _ => 0

/-- The effect takes one machine to the other, as far as stack, memory and pointer go. -/
def Holds (e : Effect) (m after : Machine) : Prop :=
  after.pc = m.pc + 1 + e.width ∧
    match e with
    | binary f => ∃ a b rest, m.stack = a :: b :: rest ∧ after.stack = f a b :: rest ∧
        after.memory = m.memory
    | unary f => ∃ a rest, m.stack = a :: rest ∧ after.stack = f a :: rest ∧
        after.memory = m.memory
    | drop => ∃ a rest, m.stack = a :: rest ∧ after.stack = rest ∧ after.memory = m.memory
    | store write => ∃ a b rest, m.stack = a :: b :: rest ∧ after.stack = rest ∧
        Memory.storeAt write a b m.memory = .ok () after.memory
    | push width => ∃ w, after.stack = w :: m.stack ∧ after.memory = m.memory ∧
        w.toNat = ∑ i ∈ Finset.range width,
          (m.codeAt (m.pc + 1 + i)).toNat * 256 ^ (width - 1 - i)

end Effect

/-- A row of the table. -/
structure Row where
  byte : UInt8
  name : String
  effect : Effect

/-- The table of instructions. -/
def table [Host] : List Row :=
  [ ⟨0x01, "ADD", .binary Word.add⟩,
    ⟨0x02, "MUL", .binary Word.mul⟩,
    ⟨0x03, "SUB", .binary Word.sub⟩,
    ⟨0x04, "DIV", .binary Word.div⟩,
    ⟨0x06, "MOD", .binary Word.rem⟩,
    ⟨0x10, "LT", .binary Word.lt⟩,
    ⟨0x11, "GT", .binary Word.gt⟩,
    ⟨0x14, "EQ", .binary Word.eq⟩,
    ⟨0x16, "AND", .binary Word.and⟩,
    ⟨0x17, "OR", .binary Word.or⟩,
    ⟨0x18, "XOR", .binary Word.xor⟩,
    ⟨0x19, "NOT", .unary Word.not⟩,
    ⟨0x1b, "SHL", .binary Word.shl⟩,
    ⟨0x1c, "SHR", .binary Word.shr⟩,
    ⟨0x50, "POP", .drop⟩,
    ⟨0x52, "MSTORE", .store Memory.store32⟩,
    ⟨0x53, "MSTORE8", .store Memory.store8⟩ ] ++
  (List.finRange 33).map fun n =>
    ⟨UInt8.ofNat (0x5f + n.val), "PUSH" ++ Numeral.decimal n.val, .push n.val⟩

/-! ### The rows and the instructions -/

namespace Opcode

/-- The instructions, in the order of their bytes. -/
def all : List Opcode :=
  [ binary .add, binary .mul, binary .sub, binary .div, binary .mod, binary .lt, binary .gt,
    binary .eq, binary .and, binary .or, binary .xor, not, binary .shl, binary .shr, pop, mstore,
    mstore8 ] ++
  (List.finRange 33).map push

theorem mem_all (op : Opcode) : op ∈ all := by
  cases op with
  | binary op => cases op <;> simp [all]
  | push width => simp [all]
  | _ => simp [all]

variable [Host]

/-- What an instruction is meant to do. -/
def effect : Opcode → Effect
  | binary op => .binary op.apply
  | not => .unary Word.not
  | pop => .drop
  | mstore => .store Memory.store32
  | mstore8 => .store Memory.store8
  | push width => .push width.val

/-- The row of an instruction. -/
def row (op : Opcode) : Row := ⟨op.toByte, op.name, op.effect⟩

theorem table_eq : table = all.map row := by
  rw [table, all, List.map_append, List.map_map]
  rfl

theorem row_mem_table (op : Opcode) : op.row ∈ table := by
  rw [table_eq]
  exact List.mem_map_of_mem op.mem_all

/-- The row of a byte is the row of the instruction that the byte stands for. -/
theorem exists_of_mem_table {r : Row} (h : r ∈ table) :
    ∃ op, ofByte? r.byte = some op ∧ r = op.row := by
  rw [table_eq] at h
  obtain ⟨op, -, rfl⟩ := List.mem_map.1 h
  exact ⟨op, ofByte?_toByte op, rfl⟩

/-- A byte without a row names no instruction. -/
theorem ofByte?_eq_none_of_table {byte : UInt8} (h : ∀ r ∈ table, r.byte ≠ byte) :
    ofByte? byte = none := by
  cases hop : ofByte? byte with
  | none => rfl
  | some op => exact absurd (toByte_of_ofByte? hop) (h op.row op.row_mem_table)

end Opcode

namespace Machine

section

variable [Host]

/-- A byte that passes does what its instruction is meant to do. -/
theorem effect_holds {m : Machine} {byte : UInt8} {op : Opcode}
    (hop : Opcode.ofByte? byte = some op) (h : m.faultOf byte = none) :
    op.effect.Holds m (m.next byte) := by
  have hpc : (m.next byte).pc = m.pc + 1 + op.immediate := by
    rw [next_pc, Opcode.immediateOfByte_of_ofByte? hop]
  have hargs := inputs_le_of_pass hop h
  have hstack : (m.next byte).stack =
      op.results (m.following op) (m.stack.take op.inputs) ++ m.stack.drop op.inputs :=
    next_stack hop
  have hmemory : (m.next byte).memory = op.memoryAfter (m.operands op) m.memory := next_memory hop
  refine ⟨?_, ?_⟩
  · rw [hpc]
    cases op <;> rfl
  · cases op with
    | binary op =>
      obtain ⟨a, b, rest, hm⟩ := Stack.exists_two hargs
      refine ⟨a, b, rest, hm, ?_, hmemory⟩
      rw [hstack, hm]
      rfl
    | not =>
      obtain ⟨a, rest, hm⟩ := Stack.exists_one hargs
      refine ⟨a, rest, hm, ?_, hmemory⟩
      rw [hstack, hm]
      rfl
    | pop =>
      obtain ⟨a, rest, hm⟩ := Stack.exists_one hargs
      refine ⟨a, rest, hm, ?_, hmemory⟩
      rw [hstack, hm]
      rfl
    | mstore =>
      obtain ⟨a, b, rest, hm, hstored⟩ := store_of_pass hop h rfl m.memory.store32_eq
      refine ⟨a, b, rest, hm, ?_, hstored⟩
      rw [hstack, hm]
      rfl
    | mstore8 =>
      obtain ⟨a, b, rest, hm, hstored⟩ := store_of_pass hop h rfl m.memory.store8_eq
      refine ⟨a, b, rest, hm, ?_, hstored⟩
      rw [hstack, hm]
      rfl
    | push width =>
      refine ⟨m.following (.push width), hstack, hmemory, ?_⟩
      exact toNat_immediate m.fetched (Nat.le_of_lt_succ width.isLt)

/-- A step that passes does what the table says. It has the effect of the row of its byte, and skips
a byte without a row, which no strict policy lets pass. Only stores change memory; code and policy
stay, and the step is counted if the counter has room for it. In the table `SUB` subtracts from the
top of the stack, `DIV` and `MOD` divide by it, and `SHL` and `SHR` shift it. -/
theorem step_follows_table {m after : Machine} {s : State} (h : m.step = .ok (some s) after) :
    (∃ byte, m.code[m.pc]? = some byte ∧
      (∀ row ∈ table, row.byte = byte →
        Opcode.nameOfByte byte = row.name ∧ row.effect.Holds m after) ∧
      ((∀ row ∈ table, row.byte ≠ byte) →
        m.policy.strict = false ∧ after.stack = m.stack ∧ after.memory = m.memory ∧
          after.pc = m.pc + 1) ∧
      (byte ≠ 0x52 → byte ≠ 0x53 → after.memory = m.memory) ∧
      after.code = m.code ∧ after.policy = m.policy ∧
      (m.HasRoom 1 → after.steps = m.steps + 1)) ∧
    ∀ a b : Word,
      Word.sub a b + b = a ∧
      (Word.div a b).toNat = b.toNat / a.toNat ∧
      (Word.rem a b).toNat = (if a = 0#256 then 0 else b.toNat % a.toNat) ∧
      (Word.shl a b).toNat = a.toNat * 2 ^ b.toNat % 2 ^ 256 ∧
      (Word.shr a b).toNat = a.toNat / 2 ^ b.toNat := by
  refine ⟨?_, fun a b => ⟨Word.sub_add_cancel a b, Word.toNat_div a b, Word.toNat_rem a b,
    Word.toNat_shl a b, Word.toNat_shr a b⟩⟩
  obtain ⟨byte, hbyte, hfault, -, rfl⟩ := step_eq_some_iff.1 h
  refine ⟨byte, hbyte, fun row hrow hrowByte => ?_, fun hnone => ?_, fun hword hlow => ?_,
    next_code m byte, next_policy m byte, fun _ => next_steps m byte⟩
  · obtain ⟨op, hop, rfl⟩ := Opcode.exists_of_mem_table hrow
    rw [hrowByte] at hop
    refine ⟨?_, effect_holds hop hfault⟩
    rw [Opcode.nameOfByte, hop]
    rfl
  · have hop := Opcode.ofByte?_eq_none_of_table hnone
    have hstrict : m.policy.strict = false := by
      simpa [faultOf, hop] using hfault
    rw [next_of_unknown hop]
    exact ⟨hstrict, rfl, rfl, rfl⟩
  · cases hop : Opcode.ofByte? byte with
    | none => rw [next_of_unknown hop, fetched_memory]
    | some op =>
      rw [next_memory hop]
      have hback := Opcode.toByte_of_ofByte? hop
      cases op with
      | mstore => exact absurd hback.symm hword
      | mstore8 => exact absurd hback.symm hlow
      | _ => rfl

end

/-- The divisor is taken from the top of the stack. -/
theorem step_follows_table_div :
    let m : Machine := { load [0x04] with stack := [2#256, 7#256, 9#256] }
    let after : Machine := { m with stack := [3#256, 9#256], pc := 1, steps := 1 }
    m.HasRoom 1 ∧ ∃ s, m.step = .ok (some s) after ∧ (Effect.binary Word.div).Holds m after ∧
      after.steps = m.steps + 1 := by
  intro m after
  have hroom : m.HasRoom 1 := by decide
  have hs : m.step = .ok (some ⟨⟨0, 0x04, [2#256, 7#256], [3#256]⟩, after.stack, {}⟩) after := rfl
  obtain ⟨⟨byte, hbyte, hrow, -, -, -, -, hcount⟩, -⟩ := step_follows_table hs
  cases hbyte
  exact ⟨hroom, _, hs, (hrow ⟨0x04, "DIV", .binary Word.div⟩ (by simp [table]) rfl).2,
    hcount hroom⟩

end Machine

end WordMachine
