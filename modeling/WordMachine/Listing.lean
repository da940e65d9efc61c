import WordMachine.Hex
import WordMachine.Log.Record
import WordMachine.Opcode

/-! # Listings

Code as a list of instructions, one a line.

* **Lines.** `Line.ofCode` cuts code into instructions: a byte, and as many of the bytes after it as
  belong to it. At the end of the code there may be fewer than that; such a line is cut short.
* **Text.** A line shows its offset, in six hexadecimal digits or in decimal, the name of the byte
  and the bytes that belong to it, each behind one space.
* **Lossless.** The bytes of the lines, one after the other, are the code
  (`flatMap_bytes_ofCode`). -/

namespace WordMachine.Listing

/-- An instruction in code. -/
structure Line where
  offset : Nat
  opcode : UInt8
  /-- The bytes that belong to it, as far as the code has them. -/
  immediate : Bytes
deriving DecidableEq, Repr

namespace Line

/-- The bytes that a line covers. -/
def bytes (l : Line) : Bytes := l.opcode :: l.immediate

/-- The lines of code that starts at an offset. -/
def ofCodeAt (offset : Nat) : Bytes → List Line
  | [] => []
  | byte :: rest =>
    let width := Opcode.immediateOfByte byte
    let line : Line := ⟨offset, byte, rest.take width⟩
    line :: ofCodeAt (offset + line.bytes.length) (rest.drop width)
termination_by code => code.length
decreasing_by simp only [List.length_drop, List.length_cons]; omega

/-- The lines of code. -/
def ofCode (code : Bytes) : List Line := ofCodeAt 0 code

/-- The bytes of the lines make up the code. -/
theorem flatMap_bytes_ofCodeAt (offset : Nat) (code : Bytes) :
    (ofCodeAt offset code).flatMap bytes = code := by
  fun_induction ofCodeAt offset code with
  | case1 => rfl
  | case2 offset byte rest width line ih =>
    rw [List.flatMap_cons, ih]
    exact congrArg (byte :: ·) (List.take_append_drop width rest)

/-- The bytes of the lines make up the code. -/
theorem flatMap_bytes_ofCode (code : Bytes) : (ofCode code).flatMap bytes = code :=
  flatMap_bytes_ofCodeAt 0 code

/-- Whether the code ends before the instruction does. -/
def isTruncated (l : Line) : Bool := l.immediate.length < Opcode.immediateOfByte l.opcode

/-- The offset of a line as it is shown. -/
def offsetText (decimal : Bool) (offset : Nat) : List Char :=
  if decimal then Numeral.chars 10 offset else Numeral.padded 16 6 offset

/-- The text of a line. -/
def render (decimal : Bool) (l : Line) : String :=
  String.ofList (offsetText decimal l.offset) ++ " " ++ Opcode.nameOfByte l.opcode ++ " " ++
    Hex.encode l.immediate ++ "\n"

end Line

/-- The listing of code. -/
def render (decimal : Bool) (code : Bytes) : String :=
  String.join ((Line.ofCode code).map (Line.render decimal))

/-- The part of the program that lists code. -/
def logTarget : String := "minievm_disassembler::core"

/-- The warning for a line that is cut short. -/
def truncation (l : Line) : Log.Record where
  level := .warn
  target := logTarget
  message :=
    Opcode.nameOfByte l.opcode ++ " at offset " ++ Numeral.decimal l.offset ++
      " is truncated: expected " ++ Numeral.decimal (Opcode.immediateOfByte l.opcode) ++
      " byte(s), found " ++ Numeral.decimal l.immediate.length

/-- What is noted while code is listed. -/
def notices (code : Bytes) : List Log.Record :=
  ((Line.ofCode code).filter Line.isTruncated).map truncation ++
    [{ level := .info, target := logTarget,
       message := "disassembled " ++ Numeral.decimal code.length ++ " bytes successfully" }]

end WordMachine.Listing
