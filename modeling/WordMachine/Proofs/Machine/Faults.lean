import WordMachine.Proofs.Machine.Steps

/-! # When a step fails

`Fails m byte fault` lists the faults of a byte, each with the whole condition under which it is the
one that is raised: what a fault waits for, and that no fault before it in the list applies. A step
fails with exactly these faults (`step_error_iff`), and leaves stack, memory, pointer and count
behind as every fault of its kind does. -/

namespace WordMachine

/-- Only a store can be refused, and for its address. -/
theorem Opcode.refusal_eq_some_iff [Host] {op : Opcode} {args : List Word} {m : Memory}
    {fault : Fault} :
    op.refusal args m = some fault ↔
      (op = .mstore ∨ op = .mstore8) ∧
        ∃ address, args.head? = some address ∧ m.refusal address = some fault := by
  cases op <;> cases args <;> simp [refusal]

namespace Machine

/-- The byte is a store to an address that passes the check of the depth. -/
def StoresAt (m : Machine) (byte : UInt8) (address : Word) : Prop :=
  ∃ op, Opcode.ofByte? byte = some op ∧ (op = .mstore ∨ op = .mstore8) ∧
    op.inputs ≤ m.stack.length ∧
    (∀ limit, m.policy.stackLimit = some limit →
      m.stack.length - op.inputs + op.outputs ≤ limit) ∧
    m.stack.head? = some address

/-- The fault of executing a byte. -/
inductive Fails [Host] (m : Machine) (byte : UInt8) : Fault → Prop
  | invalidOpcode :
      Opcode.ofByte? byte = none → m.policy.strict = true →
        Fails m byte (.invalidOpcode byte m.pc)
  | stackUnderflow {op : Opcode} :
      Opcode.ofByte? byte = some op → m.stack.length < op.inputs →
        Fails m byte (.stackUnderflow op.name op.inputs m.stack.length)
  | stackOverflow {op : Opcode} {limit : Nat} :
      Opcode.ofByte? byte = some op → op.inputs ≤ m.stack.length →
      m.policy.stackLimit = some limit →
      limit < m.stack.length - op.inputs + op.outputs →
        Fails m byte (.stackOverflow limit)
  | invalidMemoryOffset {address : Word} :
      m.StoresAt byte address → Numeral.twoPow64 ≤ address.toNat + 32 →
        Fails m byte (.invalidMemoryOffset address)
  | memoryLimitExceeded {address : Word} {limit : Nat} :
      m.StoresAt byte address → address.toNat + 32 < Numeral.twoPow64 →
      m.memory.size < address.toNat + 32 →
      m.memory.limit = some limit → limit < address.toNat + 32 →
        Fails m byte (.memoryLimitExceeded (address.toNat + 32) limit)
  | outOfMemory {address : Word} :
      m.StoresAt byte address → address.toNat + 32 < Numeral.twoPow64 →
      m.memory.size < address.toNat + 32 →
      (∀ limit, m.memory.limit = some limit → address.toNat + 32 ≤ limit) →
      Host.grants (address.toNat + 32) = false →
        Fails m byte (.outOfMemory (address.toNat + 32))

section

variable [Host]

/-- A store to an address is refused as its memory refuses it. -/
theorem StoresAt.faultOf_eq {m : Machine} {byte : UInt8} {address : Word}
    (h : m.StoresAt byte address) : m.faultOf byte = m.memory.refusal address := by
  obtain ⟨op, hop, hstore, hargs, hlimit, haddress⟩ := h
  have hdepth : m.checkDepth op = none := checkDepth_eq_none_iff.2 ⟨hargs, hlimit⟩
  obtain ⟨rest, hstack⟩ : ∃ rest, m.stack = address :: rest := by
    cases hs : m.stack with
    | nil => rw [hs] at haddress; cases haddress
    | cons a rest => rw [hs] at haddress; cases haddress; exact ⟨rest, rfl⟩
  rw [faultOf, hop]
  rcases hstore with rfl | rfl <;>
    simp [hdepth, operands, hstack, Opcode.inputs, Opcode.refusal]

/-- The guard raises the faults of the list, and no others. -/
theorem faultOf_eq_some_iff {m : Machine} {byte : UInt8} {fault : Fault} :
    m.faultOf byte = some fault ↔ m.Fails byte fault := by
  constructor
  · intro h
    unfold faultOf at h
    cases hop : Opcode.ofByte? byte with
    | none =>
      cases hstrict : m.policy.strict with
      | false => simp [hop, hstrict] at h
      | true =>
        simp only [hop, hstrict, if_true, Option.some.injEq] at h
        subst h
        exact .invalidOpcode hop hstrict
    | some op =>
      cases hdepth : m.checkDepth op with
      | some f =>
        simp only [hop, hdepth, Option.some_or, Option.some.injEq] at h
        subst h
        rcases checkDepth_eq_some_iff.1 hdepth with ⟨hlt, rfl⟩ | ⟨hargs, limit, hlimit, hlt, rfl⟩
        · exact .stackUnderflow hop hlt
        · exact .stackOverflow hop hargs hlimit hlt
      | none =>
        simp only [hop, hdepth, Option.none_or] at h
        obtain ⟨hstore, address, haddress, hrefused⟩ := Opcode.refusal_eq_some_iff.1 h
        obtain ⟨hargs, hkept⟩ := checkDepth_eq_none_iff.1 hdepth
        have hat : m.StoresAt byte address := by
          refine ⟨op, hop, hstore, hargs, hkept, ?_⟩
          rw [← haddress, operands, List.head?_take]
          rcases hstore with rfl | rfl <;> rfl
        rcases Memory.refusal_eq_some_iff.1 hrefused with
          ⟨hover, rfl⟩ | ⟨hin, hgrow, ⟨limit, hlimit, hpast, rfl⟩ | ⟨hkept, hhost, rfl⟩⟩
        · exact .invalidMemoryOffset hat hover
        · exact .memoryLimitExceeded hat hin hgrow hlimit hpast
        · exact .outOfMemory hat hin hgrow hkept hhost
  · intro h
    cases h with
    | invalidOpcode hop hstrict => simp [faultOf, hop, hstrict]
    | stackUnderflow hop hlt =>
      have hdepth := checkDepth_eq_some_iff.2 (.inl ⟨hlt, rfl⟩)
      simp [faultOf, hop, hdepth]
    | stackOverflow hop hargs hlimit hlt =>
      have hdepth := checkDepth_eq_some_iff.2 (.inr ⟨hargs, _, hlimit, hlt, rfl⟩)
      simp [faultOf, hop, hdepth]
    | invalidMemoryOffset hat hover =>
      rw [hat.faultOf_eq, Memory.refusal_eq_some_iff]
      exact .inl ⟨hover, rfl⟩
    | memoryLimitExceeded hat hin hgrow hlimit hpast =>
      rw [hat.faultOf_eq, Memory.refusal_eq_some_iff]
      exact .inr ⟨hin, hgrow, .inl ⟨_, hlimit, hpast, rfl⟩⟩
    | outOfMemory hat hin hgrow hkept hhost =>
      rw [hat.faultOf_eq, Memory.refusal_eq_some_iff]
      exact .inr ⟨hin, hgrow, .inr ⟨hkept, hhost, rfl⟩⟩

/-- A step underflows if its instruction finds fewer words than it takes. -/
theorem step_underflow_iff {m : Machine} {name : String} {required available : Nat} :
    (∃ left, m.step = .error (.stackUnderflow name required available) left) ↔
      ∃ byte op, m.code[m.pc]? = some byte ∧ Opcode.ofByte? byte = some op ∧
        m.stack.length < op.inputs ∧
        name = op.name ∧ required = op.inputs ∧ available = m.stack.length := by
  constructor
  · rintro ⟨left, hs⟩
    obtain ⟨byte, hbyte, hfault, -⟩ := step_eq_error_iff.1 hs
    cases faultOf_eq_some_iff.1 hfault with
    | stackUnderflow hop hlt => exact ⟨byte, _, hbyte, hop, hlt, rfl, rfl, rfl⟩
  · rintro ⟨byte, op, hbyte, hop, hlt, rfl, rfl, rfl⟩
    have hfault := faultOf_eq_some_iff.2 (.stackUnderflow hop hlt)
    exact ⟨_, step_eq_error_iff.2 ⟨byte, hbyte, hfault, rfl⟩⟩

/-- A step overflows if its instruction has its operands and would leave more words than the limit
allows. -/
theorem step_overflow_iff {m : Machine} {limit : Nat} :
    (∃ left, m.step = .error (.stackOverflow limit) left) ↔
      ∃ byte op, m.code[m.pc]? = some byte ∧ Opcode.ofByte? byte = some op ∧
        op.inputs ≤ m.stack.length ∧ m.policy.stackLimit = some limit ∧
        limit < m.stack.length - op.inputs + op.outputs := by
  constructor
  · rintro ⟨left, hs⟩
    obtain ⟨byte, hbyte, hfault, -⟩ := step_eq_error_iff.1 hs
    cases faultOf_eq_some_iff.1 hfault with
    | stackOverflow hop hargs hlimit hlt => exact ⟨byte, _, hbyte, hop, hargs, hlimit, hlt⟩
  · rintro ⟨byte, op, hbyte, hop, hargs, hlimit, hlt⟩
    have hfault := faultOf_eq_some_iff.2 (.stackOverflow hop hargs hlimit hlt)
    exact ⟨_, step_eq_error_iff.2 ⟨byte, hbyte, hfault, rfl⟩⟩

/-- A step at a byte fails with the faults of the list and succeeds otherwise. A failed step has
moved past the byte and has counted it, if the counter had room for it; it has changed nothing else,
except that a store has taken its two operands off the stack. -/
theorem step_error_iff {m : Machine} {byte : UInt8} (hbyte : m.code[m.pc]? = some byte) :
    (∀ fault, (∃ left, m.step = .error fault left) ↔ m.Fails byte fault) ∧
      ((∀ fault, ¬ m.Fails byte fault) → ∃ s after, m.step = .ok (some s) after) ∧
      ∀ fault left, m.step = .error fault left →
        left.memory = m.memory ∧ left.code = m.code ∧ left.policy = m.policy ∧
          left.pc = m.pc + 1 ∧ (m.HasRoom 1 → left.steps = m.steps + 1) ∧
          left.stack = if fault.ofStore then m.stack.drop 2 else m.stack := by
  refine ⟨fun fault => ?_, fun hnone => ?_, fun fault left h => ?_⟩
  · rw [← faultOf_eq_some_iff, step_eq hbyte]
    cases m.faultOf byte <;> simp
  · have hfault : m.faultOf byte = none :=
      Option.eq_none_iff_forall_ne_some.2 fun fault h => hnone fault (faultOf_eq_some_iff.1 h)
    exact ⟨m.entry byte, m.next byte, step_eq_some_iff.2 ⟨byte, hbyte, hfault, rfl, rfl⟩⟩
  · obtain ⟨byte', -, -, rfl⟩ := step_eq_error_iff.1 h
    exact ⟨rfl, rfl, rfl, rfl, fun _ => rfl, rfl⟩

end

/-- A store one byte past a limit of 32 bytes, counted by a counter with room for one step. -/
theorem step_error_past_limit :
    let m : Machine :=
      { load [0x52] { memoryLimit := some 32 } with
        stack := [1#256, 7#256], steps := Numeral.twoPow64 - 2 }
    m.code[m.pc]? = some 0x52 ∧ m.HasRoom 1 ∧
      ∃ left, m.step = .error (.memoryLimitExceeded 33 32) left ∧ left.memory = m.memory ∧
        left.steps = Numeral.twoPow64 - 1 := by
  intro m
  have hat : m.StoresAt 0x52 1#256 :=
    ⟨.mstore, rfl, .inl rfl, by decide, (fun _ h => by cases h), rfl⟩
  have hroom : m.HasRoom 1 := by decide
  have hbyte : m.code[m.pc]? = some 0x52 := rfl
  obtain ⟨hfails, -, hleft⟩ := step_error_iff hbyte
  obtain ⟨left, hstep⟩ := (hfails _).2
    (.memoryLimitExceeded hat (by decide) (by decide) rfl (by decide))
  obtain ⟨hmemory, -, -, -, hcount, -⟩ := hleft _ left hstep
  exact ⟨hbyte, hroom, left, hstep, hmemory, hcount hroom⟩

end Machine

end WordMachine
