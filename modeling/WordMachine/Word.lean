import WordMachine.Text.Numeral

/-! # Words

The 256-bit machine word and its operations.

* **Operand order.** Every binary operation takes its operands in the order in which they are
  popped: `a` was on top of the stack, `b` beneath it. So `sub a b` is `a - b`, while `div a b`
  divides `b` by `a`.
* **Wrapping.** Results are taken modulo `2 ^ 256`; nothing faults. Division by zero and remainder
  by zero are zero, and a shift by 256 bits or more is zero.
* **Bytes.** `toBytes` is the big-endian form in 32 bytes; `ofBytes` reads bytes of any number. -/

namespace WordMachine

/-- A machine word. -/
abbrev Word := BitVec 256

/-- A string of bytes. -/
abbrev Bytes := List UInt8

namespace Word

/-- One for a true condition, zero for a false one. -/
def ofCondition (p : Bool) : Word := if p then 1#256 else 0#256

def add (a b : Word) : Word := a + b

def mul (a b : Word) : Word := a * b

def sub (a b : Word) : Word := a - b

/-- The quotient of `b` by `a`, zero if `a` is zero. -/
def div (a b : Word) : Word := if a = 0#256 then 0#256 else b / a

/-- The remainder of `b` by `a`, zero if `a` is zero. -/
def rem (a b : Word) : Word := if a = 0#256 then 0#256 else b % a

def lt (a b : Word) : Word := ofCondition (a.toNat < b.toNat)

def gt (a b : Word) : Word := ofCondition (b.toNat < a.toNat)

def eq (a b : Word) : Word := ofCondition (a == b)

def and (a b : Word) : Word := b &&& a

def or (a b : Word) : Word := b ||| a

def xor (a b : Word) : Word := b ^^^ a

def not (a : Word) : Word := ~~~a

/-- `a` shifted left by `b` bits; every bit is lost from 256 on. -/
def shl (a b : Word) : Word := if b.toNat < 256 then a <<< b.toNat else 0#256

/-- `a` shifted right by `b` bits, filling with zeros. -/
def shr (a b : Word) : Word := if b.toNat < 256 then a >>> b.toNat else 0#256

/-! ### Bytes -/

/-- The number that a byte string denotes, most significant byte first. -/
def natOfBytes (bs : Bytes) : Nat := bs.foldl (fun n b => n * 256 + b.toNat) 0

/-- The word that a byte string denotes, most significant byte first. -/
def ofBytes (bs : Bytes) : Word := BitVec.ofNat 256 (natOfBytes bs)

/-- The 32 bytes of a word, most significant first. -/
def toBytes (w : Word) : Bytes :=
  (List.range 32).map fun i => UInt8.ofNat (w.toNat >>> (8 * (31 - i)))

@[simp] theorem length_toBytes (w : Word) : w.toBytes.length = 32 := by simp [toBytes]

/-- The least significant byte of a word. -/
def lowByte (w : Word) : UInt8 := UInt8.ofNat w.toNat

/-- The low byte is the last of the 32. -/
theorem getLast?_toBytes (w : Word) : w.toBytes.getLast? = some w.lowByte := by
  simp [toBytes, lowByte, List.range_succ]

/-! ### Text -/

/-- The shortest hexadecimal form, `0x0` for zero. -/
def compact (w : Word) : String := String.ofList ('0' :: 'x' :: Numeral.chars 16 w.toNat)

/-- The hexadecimal form with all 64 digits. -/
def full (w : Word) : String := String.ofList ('0' :: 'x' :: Numeral.padded 16 64 w.toNat)

end Word

end WordMachine
