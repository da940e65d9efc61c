import Mathlib.Data.List.Induction
import WordMachine.Proofs.Text.Reading

/-! # Hexadecimal text read back

Every byte is written as the digits of its two halves (`ofByte_eq`), and a pair of digits is read as
the byte that they are written for. Hence reading undoes writing (`decodePairs_chars`), and writing
undoes reading up to the case of the digits (`exists_decodePairs`). `Paired` texts are read too, in
which a sign stands for the first digit of a pair; they are written again with a zero in its place
(`Paired.exists_decodePairs`).

So a text that spells digits can be refused for their number alone (`Spells.decode_of_even`). What
`Hex.encode` writes is code to a target, and stands for the bytes that it was written for
(`resolve_encode`). -/

namespace WordMachine

namespace Hex

/-! ### Writing -/

/-- A byte is written as its upper and its lower half. -/
theorem ofByte_eq (b : UInt8) :
    ofByte b = [(b.toNat / 16).digitChar, (b.toNat % 16).digitChar] := by
  have hb : b.toNat < 256 := b.toNat_lt
  unfold ofByte Numeral.padded Numeral.chars
  by_cases h : b.toNat < 16
  · have hdiv : b.toNat / 16 = 0 := by omega
    have hmod : b.toNat % 16 = b.toNat := by omega
    rw [Numeral.digits_of_lt h, hdiv, hmod]
    rfl
  · have hdiv : b.toNat / 16 < 16 := by omega
    rw [Numeral.digits_of_le (by omega) (by omega), Numeral.digits_of_lt hdiv]
    rfl

@[simp] theorem length_chars (bs : Bytes) : (chars bs).length = 2 * bs.length := by
  induction bs with
  | nil => rfl
  | cons b bs ih =>
    rw [chars_cons, List.length_append, ih, ofByte_eq]
    simp only [List.length_cons, List.length_nil]
    omega

/-- Every character of a written byte string is a digit. -/
theorem isDigit_of_mem_chars {c : Char} {bs : Bytes} (h : c ∈ chars bs) : IsDigit c := by
  obtain ⟨b, -, hc⟩ := List.mem_flatMap.1 h
  have hb : b.toNat < 256 := b.toNat_lt
  rw [ofByte_eq] at hc
  simp only [List.mem_cons, List.not_mem_nil, or_false] at hc
  rcases hc with rfl | rfl
  · exact isDigit_digitChar (by omega)
  · exact isDigit_digitChar (by omega)

/-- A written byte string spells its digits. -/
theorem spells_chars (bs : Bytes) : Spells (chars bs) (chars bs) :=
  ⟨.inl rfl, fun _ => isDigit_of_mem_chars⟩

/-- Digits of any case that are those of a byte string in lower case spell it. -/
theorem spells_of_toLower {text digits : List Char} {bs : Bytes}
    (htext : text = digits ∨ text = '0' :: 'x' :: digits)
    (hdigits : digits.map Char.toLower = chars bs) : Spells text digits := by
  refine ⟨htext, fun c hc => isDigit_of_toLower ?_⟩
  have hmem : c.toLower ∈ chars bs := hdigits ▸ List.mem_map_of_mem hc
  exact isDigit_of_mem_chars hmem

/-! ### Reading -/

/-- What is read two characters at a time is what was written. -/
theorem decodePairs_chars (bs : Bytes) : decodePairs (chars bs) = some bs := by
  induction bs with
  | nil => rfl
  | cons b bs ih =>
    have hb : b.toNat < 256 := b.toNat_lt
    have hhi : b.toNat / 16 < 16 := by omega
    have hlo : b.toNat % 16 < 16 := by omega
    have hpair := read_pair (isDigit_digitChar hhi) (digit?_digitChar hhi (Nat.le_refl 16))
      (digit?_digitChar hlo (Nat.le_refl 16)) hhi hlo
    rw [Nat.div_add_mod'] at hpair
    rw [chars_cons, ofByte_eq, List.cons_append, List.cons_append, List.nil_append, decodePairs,
      hpair, ih]
    simp

/-- Bytes are told apart by their digits. -/
theorem chars_injective {bs cs : Bytes} (h : chars bs = chars cs) : bs = cs := by
  have hread := decodePairs_chars bs
  rw [h, decodePairs_chars] at hread
  exact (Option.some.inj hread).symm

/-! ### Pairs that are read -/

/-- Characters in pairs: a digit behind a digit, or a digit behind a sign. -/
inductive Paired : List Char → Prop
  | nil : Paired []
  | pair {c d : Char} {cs : List Char} :
      IsDigit c ∨ c = '+' → IsDigit d → Paired cs → Paired (c :: d :: cs)

/-- What a character is once it has been read and written again: a sign counts as a zero. -/
def rewritten (c : Char) : Char := if c = '+' then '0' else c.toLower

theorem IsDigit.rewritten_eq {c : Char} (h : IsDigit c) : rewritten c = c.toLower :=
  if_neg h.ne_other.1

/-- A pair is read as the byte that is written with it. -/
theorem exists_read_pair {c d : Char} (hc : IsDigit c ∨ c = '+') (hd : IsDigit d) :
    ∃ b : UInt8, Numeral.read 16 256 [c, d] = .ok b.toNat ∧
      ofByte b = [rewritten c, rewritten d] := by
  obtain ⟨lo, hreadLo, hlowLo⟩ := hd.exists_value
  have hpair : ∃ hi : Fin 16, Numeral.read 16 256 [c, d] = .ok (hi.val * 16 + lo.val) ∧
      rewritten c = hi.val.digitChar := by
    rcases hc with hc | rfl
    · obtain ⟨hi, hreadHi, hlowHi⟩ := hc.exists_value
      exact ⟨hi, read_pair hc hreadHi hreadLo hi.isLt lo.isLt, hc.rewritten_eq.trans hlowHi⟩
    · -- Behind a sign the digit is a numeral by itself.
      have hfits : lo.val < 256 := by omega
      refine ⟨0, ?_, rfl⟩
      show Numeral.readDigits 16 256 0 [d] = .ok (0 * 16 + lo.val)
      simp [Numeral.readDigits, hreadLo, hfits]
  obtain ⟨hi, hread, hlowHi⟩ := hpair
  have hbyte : (UInt8.ofNat (hi.val * 16 + lo.val)).toNat = hi.val * 16 + lo.val := by
    rw [UInt8.toNat_ofNat']
    omega
  have hdiv : (hi.val * 16 + lo.val) / 16 = hi.val := by omega
  have hmod : (hi.val * 16 + lo.val) % 16 = lo.val := by omega
  refine ⟨UInt8.ofNat (hi.val * 16 + lo.val), ?_, ?_⟩
  · rw [hread, hbyte]
  · rw [ofByte_eq, hbyte, hdiv, hmod, hlowHi, hd.rewritten_eq, hlowLo]

/-- Pairs are read as the bytes that are written with them. -/
theorem Paired.exists_decodePairs {cs : List Char} (h : Paired cs) :
    ∃ bs, decodePairs cs = some bs ∧ chars bs = cs.map rewritten := by
  induction h with
  | nil => exact ⟨[], rfl, rfl⟩
  | @pair c d cs hc hd _ ih =>
    obtain ⟨b, hread, hwrite⟩ := exists_read_pair hc hd
    obtain ⟨bs, hrest, hchars⟩ := ih
    refine ⟨b :: bs, ?_, ?_⟩
    · rw [decodePairs, hread, hrest]
      simp
    · rw [chars_cons, hwrite, hchars]
      rfl

/-- An even number of digits comes in pairs. -/
theorem Paired.of_digits {digits : List Char} (hdigits : ∀ c ∈ digits, IsDigit c)
    (heven : digits.length % 2 = 0) : Paired digits := by
  induction digits using List.twoStepInduction with
  | nil => exact .nil
  | singleton c => cases heven
  | cons_cons c d digits ih _ =>
    obtain ⟨hc, hrest⟩ := List.forall_mem_cons.1 hdigits
    obtain ⟨hd, hrest⟩ := List.forall_mem_cons.1 hrest
    have heven : digits.length % 2 = 0 := by
      simp only [List.length_cons] at heven
      omega
    exact .pair (.inl hc) hd (ih hrest heven)

/-- An even number of digits is read as the bytes that are written with them in lower case. -/
theorem exists_decodePairs {digits : List Char} (hdigits : ∀ c ∈ digits, IsDigit c)
    (heven : digits.length % 2 = 0) :
    ∃ bs, decodePairs digits = some bs ∧ chars bs = digits.map Char.toLower := by
  obtain ⟨bs, hread, hchars⟩ := (Paired.of_digits hdigits heven).exists_decodePairs
  refine ⟨bs, hread, hchars.trans ?_⟩
  exact List.map_congr_left fun c hc => (hdigits c hc).rewritten_eq

theorem Spells.decode_of_even {text : String} {digits : List Char} (h : Spells text.toList digits)
    (heven : digits.length % 2 = 0) :
    ∃ bs, decode text = .ok bs ∧ chars bs = digits.map Char.toLower := by
  obtain ⟨bs, hread, hchars⟩ := exists_decodePairs h.2 heven
  exact ⟨bs, h.decode_of_pairs heven hread, hchars⟩

/-- What is written is read as the bytes that it was written for. -/
theorem decode_encode (bs : Bytes) : decode (encode bs) = .ok bs := by
  have hspells : Spells (encode bs).toList (chars bs) := by
    rw [encode, String.toList_ofList]
    exact spells_chars bs
  exact hspells.decode_of_pairs (by simp) (decodePairs_chars bs)

end Hex

namespace Target

/-- A target that is written for bytes stands for them, whatever files there are. -/
theorem resolve_encode (fs : FileSystem) (bs : Bytes) : resolve fs (Hex.encode bs) = .ok bs := by
  have hcode : isCode (Hex.encode bs).toList = true := by
    rw [Hex.encode, String.toList_ofList]
    exact Hex.isCode_iff.2 ⟨_, Hex.spells_chars bs⟩
  rw [resolve, if_pos hcode, Hex.decode_encode]

end Target

end WordMachine
