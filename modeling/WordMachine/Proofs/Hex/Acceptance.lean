import WordMachine.Proofs.Hex.RoundTrip

/-! # Texts that are read as bytes

Reading looks at a text two characters at a time and takes each pair for a numeral of its own. So it
accepts more than digits.

* **Pairs.** What is left of a text without blanks around it and without its mark has to be
  `Paired`: in each pair the second character is a digit, and the first a digit or a sign
  (`paired_of_decodePairs`). Nothing else is accepted, and all of this is (`decode_eq_ok_iff`).
* **Writing again.** What is written for the bytes is the text in lower case with zeros for the
  signs. It is the text in lower case just where there is no sign, and this is where all characters
  are digits (`decode_accepts_pairs`). -/

namespace WordMachine.Hex

/-- The characters of a text that are read: those without the blanks at its ends and one mark. -/
def body (text : String) : List Char := dropMark (Blank.trim text.toList)

/-! ### Pairs -/

/-- What has the values of digits are digits. -/
theorem isDigit_of_mapM {cs : List Char} {ds : List Nat}
    (h : cs.mapM (Numeral.digit? 16) = some ds) : ∀ c ∈ cs, IsDigit c := by
  induction cs generalizing ds with
  | nil => simp
  | cons c cs ih =>
    rw [List.mapM_cons] at h
    cases hc : Numeral.digit? 16 c with
    | none => simp [hc] at h
    | some d =>
      cases hcs : cs.mapM (Numeral.digit? 16) with
      | none => simp [hc, hcs] at h
      | some rest =>
        have hdigit : IsDigit c := isDigit_of_digit? (by rw [hc]; rfl)
        exact List.forall_mem_cons.2 ⟨hdigit, ih hcs⟩

/-- A pair that is read is a digit behind a digit or behind a sign. -/
theorem of_read_pair {c d : Char} {n : Nat} (h : Numeral.read 16 256 [c, d] = .ok n) :
    (IsDigit c ∨ c = '+') ∧ IsDigit d := by
  obtain ⟨hnumber, -⟩ := (Numeral.read_eq_ok_iff (by decide) (by decide)).1 h
  obtain ⟨-, ds, hds, -⟩ := Numeral.number?_eq_some_iff.1 hnumber
  have hdigits := isDigit_of_mapM hds
  by_cases hplus : c = '+'
  · subst hplus
    exact ⟨.inr rfl, hdigits d List.mem_cons_self⟩
  · rw [Numeral.unsigned_of_ne hplus] at hdigits
    exact ⟨.inl (hdigits c (by simp)), hdigits d (by simp)⟩

/-- Only pairs are read two characters at a time. -/
theorem paired_of_decodePairs {cs : List Char} {bs : Bytes} (h : decodePairs cs = some bs) :
    Paired cs := by
  fun_induction decodePairs cs generalizing bs with
  | case1 => exact .nil
  | case2 c => cases h
  | case3 c d cs n bs' hrest hread ih =>
    obtain ⟨hc, hd⟩ := of_read_pair hread
    exact .pair hc hd (ih hrest)
  | case4 c d cs hnone => cases h

namespace Paired

variable {cs : List Char}

theorem even (h : Paired cs) : cs.length % 2 = 0 := by
  induction h with
  | nil => rfl
  | pair _ _ _ ih =>
    rw [List.length_cons, List.length_cons]
    omega

theorem isDigit_or_sign (h : Paired cs) : ∀ c ∈ cs, IsDigit c ∨ c = '+' := by
  induction h with
  | nil => simp
  | pair hc hd _ ih =>
    refine List.forall_mem_cons.2 ⟨hc, ?_⟩
    exact List.forall_mem_cons.2 ⟨.inl hd, ih⟩

theorem ascii (h : Paired cs) : ¬ (cs.any fun c => 0x80 ≤ c.toNat) = true := by
  rw [List.any_eq_true]
  rintro ⟨c, hmem, hpast⟩
  have hlt : c.toNat < 128 := by
    rcases h.isDigit_or_sign c hmem with hc | rfl
    · exact hc.toNat_lt
    · decide
  simp only [decide_eq_true_eq] at hpast
  omega

/-- All characters are digits if none is a sign. -/
theorem forall_isDigit_iff (h : Paired cs) : (∀ c ∈ cs, IsDigit c) ↔ '+' ∉ cs := by
  constructor
  · intro hdigits hmem
    exact (hdigits '+' hmem).ne_other.1 rfl
  · intro hnone c hmem
    rcases h.isDigit_or_sign c hmem with hc | rfl
    · exact hc
    · exact absurd hmem hnone

end Paired

/-! ### Texts -/

/-- Of a text that is accepted, the pairs are read. -/
theorem decodeDigits_eq_ok_iff {cs : List Char} {bs : Bytes} :
    decodeDigits cs = .ok bs ↔ decodePairs cs = some bs := by
  constructor
  · intro h
    unfold decodeDigits at h
    split at h
    · cases h
    split at h
    · cases h
    cases hread : decodePairs cs with
    | none => simp [hread] at h
    | some bs' =>
      rw [hread] at h
      cases h
      rfl
  · intro h
    have hpaired := paired_of_decodePairs h
    rw [decodeDigits, if_neg hpaired.ascii, if_neg (fun hodd => hodd hpaired.even), h]

/-- A text is read as bytes if it comes in pairs and the bytes are written with them. -/
theorem decode_eq_ok_iff {text : String} {bs : Bytes} :
    decode text = .ok bs ↔ Paired (body text) ∧ chars bs = (body text).map rewritten := by
  show decodeDigits (body text) = .ok bs ↔ _
  rw [decodeDigits_eq_ok_iff]
  constructor
  · intro h
    have hpaired := paired_of_decodePairs h
    obtain ⟨bs', hread, hchars⟩ := hpaired.exists_decodePairs
    cases h.symm.trans hread
    exact ⟨hpaired, hchars⟩
  · rintro ⟨hpaired, hchars⟩
    obtain ⟨bs', hread, hchars'⟩ := hpaired.exists_decodePairs
    rw [hread, chars_injective (hchars.trans hchars'.symm)]

/-- A text is read as bytes just if it comes in pairs of a digit behind a digit or behind a sign,
and then the bytes are written with its characters in lower case, zeros standing for the signs. The
number of characters is even. If none of them is a sign, all of them are digits and writing undoes
reading up to the case; and only then. -/
theorem decode_accepts_pairs (text : String) :
    ((∃ bs, decode text = .ok bs) ↔ Paired (body text)) ∧
      ∀ bs, decode text = .ok bs →
        encode bs = String.ofList ((body text).map rewritten) ∧
        (body text).length % 2 = 0 ∧
        ((∀ c ∈ body text, IsDigit c) ↔ '+' ∉ body text) ∧
        (encode bs = String.ofList ((body text).map Char.toLower) ↔ '+' ∉ body text) := by
  refine ⟨⟨?_, ?_⟩, ?_⟩
  · rintro ⟨bs, h⟩
    exact (decode_eq_ok_iff.1 h).1
  · intro hpaired
    obtain ⟨bs, -, hchars⟩ := hpaired.exists_decodePairs
    exact ⟨bs, decode_eq_ok_iff.2 ⟨hpaired, hchars⟩⟩
  · intro bs h
    obtain ⟨hpaired, hchars⟩ := decode_eq_ok_iff.1 h
    refine ⟨by rw [encode, hchars], hpaired.even, hpaired.forall_isDigit_iff, ?_⟩
    rw [encode, String.ofList_inj]
    constructor
    · intro hlower hmem
      -- What is written are digits, and a sign is none in either case.
      have hsign : '+' ∈ chars bs := by
        rw [hlower]
        exact List.mem_map.2 ⟨'+', hmem, rfl⟩
      exact (isDigit_of_mem_chars hsign).ne_other.1 rfl
    · intro hnone
      rw [hchars]
      apply List.map_congr_left
      intro c hmem
      exact (hpaired.forall_isDigit_iff.2 hnone c hmem).rewritten_eq

/-- A sign in front of a digit is read as if it were a zero. -/
theorem decode_signed_digit :
    decode "+f" = .ok [0x0f] ∧ (¬ ∀ c ∈ body "+f", IsDigit c) ∧ encode [0x0f] ≠ "+f" := by
  have hsign : '+' ∈ body "+f" := List.mem_cons_self
  have hencode : encode [0x0f] = "0f" := by
    rw [encode, chars_cons, ofByte_eq]
    rfl
  refine ⟨rfl, ?_, ?_⟩
  · intro hdigits
    exact (hdigits '+' hsign).ne_other.1 rfl
  · rw [hencode]
    decide

/-- Blanks, a mark and capitals are lost, and nothing else. -/
theorem decode_accepts_pairs_marked :
    decode " 0xaB\n" = .ok [0xab] ∧ '+' ∉ body " 0xaB\n" ∧
      encode [0xab] = String.ofList ((body " 0xaB\n").map Char.toLower) := by
  have hread : decode " 0xaB\n" = .ok [0xab] := rfl
  have hnone : '+' ∉ body " 0xaB\n" := by decide
  obtain ⟨-, -, -, hlower⟩ := (decode_accepts_pairs " 0xaB\n").2 _ hread
  exact ⟨hread, hnone, hlower.2 hnone⟩

end WordMachine.Hex
