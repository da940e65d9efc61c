import WordMachine.Machine.Step
import WordMachine.Proofs.Word.BigEndian

/-! # Immediates

The word of the bytes at the pointer is the number that the code denotes there, zeros standing for
what lies past its end.

* **The number.** `codeAt` is the code with zeros behind it, at every offset; an immediate is the
  sum of its bytes in their places (`toNat_immediate`).
* **The accesses.** `pushChecked?` fills the 32 bytes of a word with what the code has of an
  immediate, and gives up if it would leave the code or the word on the way. It never does, wherever
  the pointer is, and pushes the same word (`pushChecked?_eq`). -/

namespace WordMachine

/-- The bytes of a range, if the range lies within them. -/
def Bytes.slice? (bs : Bytes) (start stop : Nat) : Option Bytes :=
  if start ≤ stop ∧ stop ≤ bs.length then some ((bs.drop start).take (stop - start)) else none

/-- The bytes with others in their place from an offset on, if there is room for them. -/
def Bytes.replace? (bs : Bytes) (offset : Nat) (new : Bytes) : Option Bytes :=
  if offset + new.length ≤ bs.length then
    some (bs.take offset ++ new ++ bs.drop (offset + new.length))
  else none

namespace Machine

/-- The byte of the code at an offset, zero past the end. -/
def codeAt (m : Machine) (i : Nat) : UInt8 := m.code.getD i 0

/-! ### The number -/

/-- The bytes that the code has, filled up with zeros, are those of the code with zeros behind it. -/
theorem immediate_eq (m : Machine) (width : Nat) :
    m.immediate width = Word.ofBytes ((List.range width).map fun i => m.codeAt (m.pc + i)) := by
  unfold immediate
  refine congrArg Word.ofBytes (List.ext_getElem? fun i => ?_)
  rw [List.getElem?_map, List.getElem?_append, List.length_take, List.length_drop]
  by_cases hi : i < width
  · have hrange : (List.range width)[i]? = some i := List.getElem?_range hi
    by_cases hcode : m.pc + i < m.code.length
    · have hpresent : i < min width (m.code.length - m.pc) := by omega
      rw [if_pos hpresent, hrange, List.getElem?_take_of_lt hi, List.getElem?_drop,
        List.getElem?_eq_getElem hcode]
      simp [codeAt, hcode]
    · have hmissing : ¬ i < min width (m.code.length - m.pc) := by omega
      have hpad : i - min width (m.code.length - m.pc) <
          width - min width (m.code.length - m.pc) := by omega
      rw [if_neg hmissing, hrange, List.getElem?_replicate, if_pos hpad]
      simp [codeAt, List.getElem?_eq_none (Nat.le_of_not_lt hcode)]
  · have hnone : (List.range width)[i]? = none := by
      rw [List.getElem?_eq_none]
      rw [List.length_range]
      exact Nat.le_of_not_lt hi
    have hmissing : ¬ i < min width (m.code.length - m.pc) := by omega
    have hpast : ¬ i - min width (m.code.length - m.pc) <
        width - min width (m.code.length - m.pc) := by omega
    rw [if_neg hmissing, hnone, List.getElem?_replicate, if_neg hpast]
    rfl

/-- A word has room for the number of an immediate. -/
theorem toNat_immediate_eq_natOfBytes (m : Machine) {width : Nat} (h : width ≤ 32) :
    (m.immediate width).toNat =
      Word.natOfBytes ((List.range width).map fun i => m.codeAt (m.pc + i)) := by
  have hlt := Word.natOfBytes_lt (fun i => m.codeAt (m.pc + i)) width
  have hword : 256 ^ width ≤ 2 ^ 256 := Nat.pow_le_pow_right (by decide : 0 < 256) h
  rw [immediate_eq, Word.ofBytes, BitVec.toNat_ofNat,
    Nat.mod_eq_of_lt (Nat.lt_of_lt_of_le hlt hword)]

/-- As a number, an immediate is the sum of its bytes in their places. -/
theorem toNat_immediate (m : Machine) {width : Nat} (h : width ≤ 32) :
    (m.immediate width).toNat =
      ∑ i ∈ Finset.range width, (m.codeAt (m.pc + i)).toNat * 256 ^ (width - 1 - i) := by
  rw [toNat_immediate_eq_natOfBytes m h, Word.natOfBytes_map_range]

theorem toNat_immediate_lt (m : Machine) {width : Nat} (h : width ≤ 32) :
    (m.immediate width).toNat < 256 ^ width := by
  rw [toNat_immediate_eq_natOfBytes m h]
  exact Word.natOfBytes_lt _ width

/-! ### The accesses -/

/-- The 32 bytes of the word that a push of `width` bytes reads: what the code has of them is cut
out of it and put where the last `width` of 32 zeros begin. -/
def wordBytes? (m : Machine) (width : Nat) : Option Bytes := do
  let start := min m.pc m.code.length
  let stop := min (min (m.pc + width) m.maxPointer) m.code.length
  let present ← Bytes.slice? m.code start stop
  if width ≤ 32 then Bytes.replace? (List.replicate 32 0) (32 - width) present else none

/-- Pushes the immediate at the pointer, as `pushImmediate` does, with every access checked. -/
def pushChecked? (m : Machine) (width : Nat) : Option Machine :=
  (m.wordBytes? width).map fun bytes =>
    { m with stack := Word.ofBytes bytes :: m.stack, pc := min (m.pc + width) m.maxPointer }

/-- What is cut out of the code is what the code has from the pointer on. -/
theorem slice?_code (m : Machine) (width : Nat) :
    Bytes.slice? m.code (min m.pc m.code.length)
      (min (min (m.pc + width) m.maxPointer) m.code.length) =
        some ((m.code.drop m.pc).take width) := by
  have hroom : m.code.length ≤ m.maxPointer := by
    simp only [maxPointer]
    omega
  unfold Bytes.slice?
  rw [if_pos (by omega)]
  rcases Nat.lt_or_ge m.pc m.code.length with hpc | hpast
  · rw [Nat.min_eq_left (Nat.le_of_lt hpc)]
    refine congrArg some (List.take_eq_take_iff.2 ?_)
    rw [List.length_drop]
    omega
  · -- Past the end of the code both are empty.
    rw [Nat.min_eq_right hpast, List.drop_length, List.drop_of_length_le hpast, List.take_nil,
      List.take_nil]

/-- The bytes are put between zeros. -/
theorem wordBytes?_eq (m : Machine) {width : Nat} (h : width ≤ 32) :
    m.wordBytes? width =
      some (List.replicate (32 - width) 0 ++ ((m.code.drop m.pc).take width ++
        List.replicate (width - ((m.code.drop m.pc).take width).length) 0)) := by
  have hlen : ((m.code.drop m.pc).take width).length ≤ width := List.length_take_le _ _
  have hfits : 32 - width + ((m.code.drop m.pc).take width).length ≤
      (List.replicate 32 (0 : UInt8)).length := by
    rw [List.length_replicate]
    omega
  have htail : 32 - (32 - width + ((m.code.drop m.pc).take width).length) =
      width - ((m.code.drop m.pc).take width).length := by omega
  have hhead : min (32 - width) 32 = 32 - width := by omega
  simp only [wordBytes?, slice?_code, Option.bind_eq_bind, Option.bind_some]
  rw [if_pos h, Bytes.replace?, if_pos hfits, List.take_replicate, List.drop_replicate, htail, hhead,
    List.append_assoc]

/-- No access leaves the code or the word, and the word is that of the immediate. -/
theorem pushChecked?_eq (m : Machine) {width : Nat} (h : width ≤ 32) :
    m.pushChecked? width = some (m.pushImmediate width) := by
  rw [pushChecked?, wordBytes?_eq m h, Option.map_some, Word.ofBytes_replicate_zero_append]
  rfl

/-- Where the code leaves room for an immediate behind it, the pointer stops at the end of a 64-bit
address space. -/
theorem maxPointer_eq {m : Machine} (hcode : m.code.length + 32 < 2 ^ 64) :
    m.maxPointer = 2 ^ 64 - 1 := by
  show max (2 ^ 64 - 1) (m.code.length + 32) = 2 ^ 64 - 1
  omega

/-- A push reads the immediate at the pointer wherever the pointer is. The word is the sum of the
bytes in their places, zeros standing for bytes past the end of the code. No access leaves the code
or the word, and nothing but the stack and the pointer changes. The pointer moves over the immediate
and stops at the end of the address space; this is `2 ^ 64 - 1` for all code that fits into it with
an immediate behind. -/
theorem push_reads_immediate [Host] (m : Machine) (width : Fin 33) :
    ∃ word : Word,
      word.toNat = ∑ i ∈ Finset.range width,
        (m.codeAt (m.pc + i)).toNat * 256 ^ (width.val - 1 - i) ∧
      word.toNat < 256 ^ width.val ∧
      m.pushChecked? width = some (m.pushImmediate width) ∧
      m.execute (.push width) = .ok () (m.pushImmediate width) ∧
      m.pushImmediate width =
        { m with stack := word :: m.stack, pc := min (m.pc + width) m.maxPointer } ∧
      (m.code.length + 32 < 2 ^ 64 → m.maxPointer = 2 ^ 64 - 1) := by
  have hwidth : width.val ≤ 32 := by omega
  exact ⟨m.immediate width, toNat_immediate m hwidth, toNat_immediate_lt m hwidth,
    pushChecked?_eq m hwidth, rfl, rfl, maxPointer_eq⟩

/-- A pointer near the end of the address space stops there, and reads nothing but zeros. -/
theorem push_reads_immediate_far :
    let m : Machine := { load [0x60, 0xab] with pc := 2 ^ 64 - 3, stack := [7#256] }
    m.code.length + 32 < 2 ^ 64 ∧
      m.execute (.push 5) = .ok () { m with stack := [0#256, 7#256], pc := 2 ^ 64 - 1 } := by
  intro m
  have hcode : m.code.length + 32 < 2 ^ 64 := by decide
  obtain ⟨word, hword, -, -, hrun, hpush, hend⟩ := push_reads_immediate m 5
  have hzero : word = 0#256 := BitVec.eq_of_toNat_eq (hword.trans (by decide))
  refine ⟨hcode, ?_⟩
  rw [hrun, hpush, hzero, hend hcode]
  rfl

end Machine

end WordMachine
