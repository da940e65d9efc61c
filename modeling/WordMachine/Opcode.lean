import WordMachine.Word

/-! # Instructions

The instructions of the machine and the bytes that stand for them.

* **Families.** Thirteen instructions replace two words by one; `not` replaces one; `pop` drops one;
  `mstore` and `mstore8` move two words into memory; `push n` reads the `n` bytes that follow it in
  the code, for `n` from 0 to 32.
* **One table.** `toByte` numbers the instructions and `ofByte?` reads the numbers back; `name`,
  `inputs`, `outputs` and `immediate` hold the rest of the table.
* **Other bytes** name no instruction. They are listed as `unknown`, without operands. -/

namespace WordMachine

/-- The operations that replace two words by one. -/
inductive BinaryOp where
  | add | mul | sub | div | mod
  | lt | gt | eq
  | and | or | xor | shl | shr
deriving DecidableEq, Repr

namespace BinaryOp

/-- The result for `a` from the top of the stack and `b` beneath it. -/
def apply : BinaryOp → Word → Word → Word
  | add => Word.add
  | mul => Word.mul
  | sub => Word.sub
  | div => Word.div
  | mod => Word.rem
  | lt => Word.lt
  | gt => Word.gt
  | eq => Word.eq
  | and => Word.and
  | or => Word.or
  | xor => Word.xor
  | shl => Word.shl
  | shr => Word.shr

def toByte : BinaryOp → UInt8
  | add => 0x01
  | mul => 0x02
  | sub => 0x03
  | div => 0x04
  | mod => 0x06
  | lt => 0x10
  | gt => 0x11
  | eq => 0x14
  | and => 0x16
  | or => 0x17
  | xor => 0x18
  | shl => 0x1b
  | shr => 0x1c

def name : BinaryOp → String
  | add => "ADD"
  | mul => "MUL"
  | sub => "SUB"
  | div => "DIV"
  | mod => "MOD"
  | lt => "LT"
  | gt => "GT"
  | eq => "EQ"
  | and => "AND"
  | or => "OR"
  | xor => "XOR"
  | shl => "SHL"
  | shr => "SHR"

end BinaryOp

/-- An instruction. -/
inductive Opcode where
  | binary (op : BinaryOp)
  | not
  | pop
  | mstore
  | mstore8
  /-- Pushes the word of the `width` bytes that follow. -/
  | push (width : Fin 33)
deriving DecidableEq, Repr

namespace Opcode

/-- The byte of `push 0`; the other widths follow it. -/
def pushBase : Nat := 0x5f

/-- The byte that stands for an instruction. -/
def toByte : Opcode → UInt8
  | binary op => op.toByte
  | not => 0x19
  | pop => 0x50
  | mstore => 0x52
  | mstore8 => 0x53
  | push width => UInt8.ofNat (pushBase + width.val)

/-- The instruction that a byte stands for. -/
def ofByte? (byte : UInt8) : Option Opcode :=
  match byte.toNat with
  | 0x01 => some (binary .add)
  | 0x02 => some (binary .mul)
  | 0x03 => some (binary .sub)
  | 0x04 => some (binary .div)
  | 0x06 => some (binary .mod)
  | 0x10 => some (binary .lt)
  | 0x11 => some (binary .gt)
  | 0x14 => some (binary .eq)
  | 0x16 => some (binary .and)
  | 0x17 => some (binary .or)
  | 0x18 => some (binary .xor)
  | 0x19 => some not
  | 0x1b => some (binary .shl)
  | 0x1c => some (binary .shr)
  | 0x50 => some pop
  | 0x52 => some mstore
  | 0x53 => some mstore8
  | n => if h : pushBase ≤ n ∧ n - pushBase < 33 then some (push ⟨n - pushBase, h.2⟩) else none

/-- The name of an instruction. -/
def name : Opcode → String
  | binary op => op.name
  | not => "NOT"
  | pop => "POP"
  | mstore => "MSTORE"
  | mstore8 => "MSTORE8"
  | push width => "PUSH" ++ Numeral.decimal width.val

/-- The number of words that an instruction takes from the stack. -/
def inputs : Opcode → Nat
  | binary _ => 2
  | not => 1
  | pop => 1
  | mstore => 2
  | mstore8 => 2
  | push _ => 0

/-- The number of words that an instruction puts on the stack. -/
def outputs : Opcode → Nat
  | binary _ => 1
  | not => 1
  | pop => 0
  | mstore => 0
  | mstore8 => 0
  | push _ => 1

/-- The number of code bytes after an instruction that belong to it. -/
def immediate : Opcode → Nat
  | push width => width.val
  | _ => 0

/-- Every instruction is read back from its byte. -/
theorem ofByte?_toByte (op : Opcode) : ofByte? op.toByte = some op := by
  cases op with
  | binary op => cases op <;> rfl
  | push width =>
    have all : ∀ w : Fin 33, ofByte? (toByte (push w)) = some (push w) := by decide
    exact all width
  | _ => rfl

/-- A byte that stands for an instruction is the byte of that instruction. -/
theorem toByte_of_ofByte? {byte : UInt8} {op : Opcode} (h : ofByte? byte = some op) :
    op.toByte = byte := by
  apply UInt8.toNat_inj.1
  have hlt := byte.toNat_lt
  unfold ofByte? at h
  split at h
  case h_18 =>
    split at h
    · rename_i hw
      cases h
      simp only [toByte, UInt8.toNat_ofNat']
      omega
    · cases h
  all_goals
    rename_i heq
    cases h
    rw [heq]
    rfl

/-! ### Bytes that may name no instruction -/

/-- The name of a byte as an instruction. -/
def nameOfByte (byte : UInt8) : String := ((ofByte? byte).map name).getD "unknown"

/-- The number of code bytes after a byte that belong to it as an instruction. -/
def immediateOfByte (byte : UInt8) : Nat := ((ofByte? byte).map immediate).getD 0

theorem immediateOfByte_le (byte : UInt8) : immediateOfByte byte ≤ 32 := by
  unfold immediateOfByte
  cases ofByte? byte with
  | none => simp
  | some op => cases op <;> simp [immediate]; omega

end Opcode

end WordMachine
