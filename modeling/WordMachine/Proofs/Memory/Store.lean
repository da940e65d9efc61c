import WordMachine.Memory

/-! # Stores, taken apart

A store is a guard and a write. `refusal` is the guard: it looks at the address and at how much
memory there is, never at the bytes that are stored. `put` is the write, and cannot fail. The two
stores of the machine differ in the bytes that they write (`store32_eq`, `store8_eq`); both grow
memory by the same rule, and a store that is refused leaves memory as it was. -/

namespace WordMachine.Memory

/-! ### The write -/

/-- Memory with room for a word at an address, and bytes written from there on. -/
def put (m : Memory) (offset : Nat) (bs : Bytes) : Memory :=
  let grown := m.grow (offset + wordSize)
  { grown with bytes := overwrite grown.bytes offset bs }

/-- Memory that exists already does not grow. -/
theorem grow_of_le {m : Memory} {required : Nat} (h : required ≤ m.size) : m.grow required = m := by
  have hzero : required - m.size = 0 := by omega
  simp [grow, hzero]

/-- Memory that grows reaches at least as far as it has to. -/
theorem size_grow_eq_max (m : Memory) (required : Nat) :
    (m.grow required).size = max m.size required := by
  rcases Nat.le_total required m.size with h | h
  · rw [grow_of_le h, Nat.max_eq_left h]
  · rw [size_grow m h, Nat.max_eq_right h]

@[simp] theorem limit_put (m : Memory) (offset : Nat) (bs : Bytes) :
    (m.put offset bs).limit = m.limit := rfl

theorem size_put (m : Memory) (offset : Nat) (bs : Bytes) :
    (m.put offset bs).size = max m.size (offset + wordSize) := by
  rw [← size_grow_eq_max]
  exact size_overwrite _ offset bs

/-- A word fills the field of its store. -/
theorem field_toBytes (value : Word) : field wordSize value.toBytes = value.toBytes := by
  have hlen : value.toBytes.length = wordSize := Word.length_toBytes value
  rw [field, List.take_of_length_le (Nat.le_of_eq hlen), List.leftpad, hlen]
  simp

/-! ### The guard -/

theorem passesLimit_eq_some_iff {m : Memory} {required limit : Nat} :
    m.passesLimit required = some limit ↔ m.limit = some limit ∧ limit < required := by
  simp [passesLimit, Option.filter_eq_some_iff]

theorem passesLimit_eq_none_iff {m : Memory} {required : Nat} :
    m.passesLimit required = none ↔ ∀ limit, m.limit = some limit → required ≤ limit := by
  simp [passesLimit, Option.filter_eq_none_iff]

variable [Host]

/-- The fault of storing at an address, if there is one. -/
def refusal (m : Memory) (address : Word) : Option Fault :=
  let required := address.toNat + wordSize
  if Numeral.twoPow64 ≤ required then some (.invalidMemoryOffset address)
  else if required ≤ m.size then none
  else match m.passesLimit required with
    | some limit => some (.memoryLimitExceeded required limit)
    | none => if Host.grants required then none else some (.outOfMemory required)

/-- The three reasons to refuse a store, in the order in which they are looked for. -/
theorem refusal_eq_some_iff {m : Memory} {address : Word} {fault : Fault} :
    m.refusal address = some fault ↔
      let required := address.toNat + wordSize
      (Numeral.twoPow64 ≤ required ∧ fault = .invalidMemoryOffset address) ∨
        (required < Numeral.twoPow64 ∧ m.size < required ∧
          ((∃ limit, m.limit = some limit ∧ limit < required ∧
              fault = .memoryLimitExceeded required limit) ∨
            ((∀ limit, m.limit = some limit → required ≤ limit) ∧
              Host.grants required = false ∧ fault = .outOfMemory required))) := by
  rw [@eq_comm _ (m.refusal address)]
  unfold refusal
  generalize address.toNat + wordSize = required
  by_cases hover : Numeral.twoPow64 ≤ required
  · simp [hover, Nat.not_lt.2 hover]
  · have hlt : required < Numeral.twoPow64 := Nat.not_le.1 hover
    by_cases hfits : required ≤ m.size
    · simp [hover, hfits, Nat.not_lt.2 hfits]
    · have hroom : m.size < required := Nat.not_le.1 hfits
      cases hlimit : m.passesLimit required with
      | none =>
        have hkept := passesLimit_eq_none_iff.1 hlimit
        have hpast : ¬ ∃ limit, m.limit = some limit ∧ limit < required ∧
            fault = .memoryLimitExceeded required limit := by
          rintro ⟨limit, hl, hlt, -⟩
          exact Nat.not_le.2 hlt (hkept limit hl)
        simp [hover, hfits, hlt, hroom, hlimit, hpast, iff_true_intro hkept]
      | some limit =>
        obtain ⟨hl, hpast⟩ := passesLimit_eq_some_iff.1 hlimit
        simp [hover, hfits, hlt, hroom, hlimit, hl, hpast, Nat.not_le.2 hpast]

/-- A store passes within the address space if it fits, or if limit and host let memory grow. -/
theorem refusal_eq_none_iff {m : Memory} {address : Word} :
    m.refusal address = none ↔
      address.toNat + wordSize < Numeral.twoPow64 ∧
        (m.size < address.toNat + wordSize →
          (∀ limit, m.limit = some limit → address.toNat + wordSize ≤ limit) ∧
            Host.grants (address.toNat + wordSize) = true) := by
  unfold refusal
  generalize address.toNat + wordSize = required
  by_cases hover : Numeral.twoPow64 ≤ required
  · simp [hover, Nat.not_lt.2 hover]
  · have hlt : required < Numeral.twoPow64 := Nat.not_le.1 hover
    by_cases hfits : required ≤ m.size
    · simp [hover, hfits, hlt, Nat.not_lt.2 hfits]
    · have hroom : m.size < required := Nat.not_le.1 hfits
      cases hlimit : m.passesLimit required with
      | none =>
        have hkept := passesLimit_eq_none_iff.1 hlimit
        simp [hover, hfits, hlt, hroom, hlimit, iff_true_intro hkept]
      | some limit =>
        obtain ⟨hl, hpast⟩ := passesLimit_eq_some_iff.1 hlimit
        simp [hover, hfits, hlt, hroom, hlimit, hl, Nat.not_le.2 hpast]

/-- Room for a word is made or refused. -/
theorem extend_word (m : Memory) (address : Word) :
    extend address.toNat wordSize m =
      match m.refusal address with
      | some fault => .error fault m
      | none => .ok () (m.grow (address.toNat + wordSize)) := by
  have hback : BitVec.ofNat 256 address.toNat = address := BitVec.ofNat_toNat 256 address
  unfold extend refusal
  by_cases hover : Numeral.twoPow64 ≤ address.toNat + wordSize
  · simp [hover, hback]
  · by_cases hfits : address.toNat + wordSize ≤ m.size
    · simp [hover, hfits, grow_of_le hfits]
    · cases hlimit : m.passesLimit (address.toNat + wordSize) with
      | some limit => simp [hover, hfits, hlimit]
      | none =>
        cases hgrants : Host.grants (address.toNat + wordSize) <;>
          simp [hover, hfits, hlimit, hgrants]

/-- A store that writes into the room for a word is made or refused. An address of more than 64 bits
is refused for the reason for which one near the end of the address space is. -/
theorem storeAt_eq (m : Memory) (address value : Word)
    (store : Nat → Word → EStateM Fault Memory Unit) (write : Nat → Memory → Memory)
    (hstore : ∀ o, store o value = (extend o wordSize >>= fun _ => modify (write o))) :
    storeAt store address value m =
      match m.refusal address with
      | some fault => .error fault m
      | none => .ok () (write address.toNat (m.grow (address.toNat + wordSize))) := by
  by_cases h : address.toNat < Numeral.twoPow64
  · have hoffset : offset address = .ok address.toNat := if_pos h
    have hmade : storeAt store address value m =
        (extend address.toNat wordSize >>= fun _ => modify (write address.toNat)) m := by
      rw [← hstore, storeAt, hoffset]
      rfl
    rw [hmade, extend_modify_apply, extend_word]
    cases m.refusal address <;> rfl
  · have hoffset : offset address = .error (.invalidMemoryOffset address) := if_neg h
    have hover : Numeral.twoPow64 ≤ address.toNat + wordSize := by omega
    have hrefused : m.refusal address = some (.invalidMemoryOffset address) := if_pos hover
    rw [storeAt, hoffset, hrefused]
    rfl

/-- Storing a word is refused or writes its 32 bytes. -/
theorem store32_eq (m : Memory) (address value : Word) :
    storeAt store32 address value m =
      match m.refusal address with
      | some fault => .error fault m
      | none => .ok () (m.put address.toNat value.toBytes) := by
  refine m.storeAt_eq address value store32
    (fun o grown => { grown with bytes := overwrite grown.bytes o value.toBytes }) fun o => ?_
  rw [store32, store, field_toBytes]

/-- Storing a byte is refused or writes that byte. -/
theorem store8_eq (m : Memory) (address value : Word) :
    storeAt store8 address value m =
      match m.refusal address with
      | some fault => .error fault m
      | none => .ok () (m.put address.toNat [value.lowByte]) :=
  m.storeAt_eq address value store8
    (fun o grown => { grown with bytes := grown.bytes.setIfInBounds o value.lowByte }) fun _ => rfl

end WordMachine.Memory
