import WordMachine.Text.Blank
import WordMachine.Word

/-! # Byte strings in hexadecimal

* **Writing.** `encode` writes two lowercase digits for each byte.
* **Reading.** `decode` drops blanks around the text and one leading `0x`, and reads the rest two
  characters at a time. Each pair is a numeral of its own, so a pair may also be a `+` and one
  digit. The empty text is the empty byte string. -/

namespace WordMachine.Hex

/-- The two digits of a byte. -/
def ofByte (b : UInt8) : List Char := Numeral.padded 16 2 b.toNat

/-- The digits of a byte string, as characters. -/
def chars (bs : Bytes) : List Char := bs.flatMap ofByte

/-- The digits of a byte string. -/
def encode (bs : Bytes) : String := String.ofList (chars bs)

/-- The digits of a byte string behind `0x`. -/
def encodePrefixed (bs : Bytes) : String := String.ofList ('0' :: 'x' :: chars bs)

/-- Why a text denotes no byte string. -/
inductive Malformed where
  /-- A character or a pair of characters is no digit. -/
  | notHex (text : String)
  /-- The number of digits is odd. -/
  | oddLength (count : Nat)
deriving DecidableEq, Repr

/-- The wording of a reading fault. -/
def Malformed.message : Malformed → String
  | .notHex text => "invalid hex string: " ++ text
  | .oddLength count =>
    "invalid hex string: odd number of digits (" ++ Numeral.decimal count ++ ")"

/-- The text without one leading `0x`. -/
def dropMark : List Char → List Char
  | '0' :: 'x' :: cs => cs
  | cs => cs

/-- Reads two characters at a time. -/
def decodePairs : List Char → Option Bytes
  | [] => some []
  | [_] => none
  | c :: d :: cs =>
    match Numeral.read 16 256 [c, d], decodePairs cs with
    | .ok n, some bs => some (UInt8.ofNat n :: bs)
    | _, _ => none

/-- Reads digits that carry no mark and no blanks around them. -/
def decodeDigits (cs : List Char) : Except Malformed Bytes :=
  if cs.any fun c => 0x80 ≤ c.toNat then .error (.notHex (String.ofList cs))
  else if cs.length % 2 ≠ 0 then .error (.oddLength cs.length)
  else match decodePairs cs with
    | some bs => .ok bs
    | none => .error (.notHex (String.ofList cs))

/-- Reads a byte string. -/
def decode (text : String) : Except Malformed Bytes :=
  decodeDigits (dropMark (Blank.trim text.toList))

@[simp] theorem chars_nil : chars [] = [] := rfl

@[simp] theorem chars_cons (b : UInt8) (bs : Bytes) : chars (b :: bs) = ofByte b ++ chars bs := rfl

@[simp] theorem chars_append (bs cs : Bytes) : chars (bs ++ cs) = chars bs ++ chars cs := by
  simp [chars]

end WordMachine.Hex
