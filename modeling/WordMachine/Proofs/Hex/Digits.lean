import WordMachine.Target

/-! # Hexadecimal digits

Hexadecimal text is read in either case and written in lower case.

* **Digits.** `IsDigit` are the digits of either case. Each has the value of the digit that it is in
  lower case, and nothing else has a value (`IsDigit.exists_value`, `isDigit_of_digit?`).
* **Text.** `Spells text digits` says that a text is digits behind an optional mark. Mark and digits
  are told apart, so a text spells one row of digits at most (`Spells.dropMark_eq`), and the texts
  that do are what targets take for code (`isCode_iff`). -/

namespace WordMachine.Hex

/-- The digits of either case. -/
def IsDigit (c : Char) : Prop :=
  '0' ≤ c ∧ c ≤ '9' ∨ 'a' ≤ c ∧ c ≤ 'f' ∨ 'A' ≤ c ∧ c ≤ 'F'

instance (c : Char) : Decidable (IsDigit c) := inferInstanceAs (Decidable (_ ∨ _ ∨ _))

/-- A text is an optional mark and these digits. -/
def Spells (text digits : List Char) : Prop :=
  (text = digits ∨ text = '0' :: 'x' :: digits) ∧ ∀ c ∈ digits, IsDigit c

/-! ### Characters -/

/-- A property of the characters below 128, checked one by one. -/
theorem ascii_forall {P : Char → Prop} (h : ∀ n : Fin 128, P (Char.ofNat n.val)) {c : Char}
    (hc : c.toNat < 128) : P c := by
  have hn := h ⟨c.toNat, hc⟩
  rwa [Char.ofNat_toNat] at hn

/-- A character past the ASCII range is past every letter and every decimal digit. -/
theorem not_le_of_ascii {c d : Char} (hc : 128 ≤ c.toNat) (hd : d.toNat < 128) : ¬ c ≤ d := by
  intro hle
  have hnat : c.toNat ≤ d.toNat := hle
  omega

/-- Only digits have a value. -/
theorem isDigit_of_digit? {c : Char} (h : (Numeral.digit? 16 c).isSome) : IsDigit c := by
  rcases Nat.lt_or_ge c.toNat 128 with hlt | hge
  · exact ascii_forall (P := fun c => (Numeral.digit? 16 c).isSome → IsDigit c) (by decide) hlt h
  · have hnine : ¬ c ≤ '9' := not_le_of_ascii hge (by decide)
    have hlower : ¬ c ≤ 'z' := not_le_of_ascii hge (by decide)
    have hupper : ¬ c ≤ 'Z' := not_le_of_ascii hge (by decide)
    simp [Numeral.digit?, hnine, hlower, hupper] at h

/-- A character that is a digit in lower case is a digit. -/
theorem isDigit_of_toLower {c : Char} (h : IsDigit c.toLower) : IsDigit c := by
  rcases Nat.lt_or_ge c.toNat 128 with hlt | hge
  · exact ascii_forall (P := fun c => IsDigit c.toLower → IsDigit c) (by decide) hlt h
  · -- Past the ASCII range there is no other case.
    have hupper : ¬ c ≤ 'Z' := not_le_of_ascii hge (by decide)
    have hsame : c.toLower = c := dif_neg fun hle => hupper hle.2
    rwa [hsame] at h

/-- The digit that is written for a value has this value in every base that has it. -/
theorem digit?_digitChar {base d : Nat} (hd : d < base) (hbase : base ≤ 16) :
    Numeral.digit? base d.digitChar = some d := by
  have all : ∀ (b : Fin 17) (d : Fin 16), d.val < b.val →
      Numeral.digit? b.val d.val.digitChar = some d.val := by decide
  exact all ⟨base, by omega⟩ ⟨d, by omega⟩ hd

theorem toLower_digitChar {d : Nat} (h : d < 16) : d.digitChar.toLower = d.digitChar := by
  have all : ∀ d : Fin 16, d.val.digitChar.toLower = d.val.digitChar := by decide
  exact all ⟨d, h⟩

theorem isDigit_digitChar {d : Nat} (h : d < 16) : IsDigit d.digitChar :=
  isDigit_of_digit? (by rw [digit?_digitChar h (Nat.le_refl 16)]; rfl)

namespace IsDigit

variable {c : Char}

theorem toNat_lt (h : IsDigit c) : c.toNat < 128 := by
  have hle : ∀ d : Char, c ≤ d → c.toNat ≤ d.toNat := fun _ h => h
  rcases h with ⟨-, h⟩ | ⟨-, h⟩ | ⟨-, h⟩ <;> exact Nat.lt_of_le_of_lt (hle _ h) (by decide)

/-- In lower case a digit is the one that is written for its value. -/
theorem exists_value (h : IsDigit c) :
    ∃ d : Fin 16, Numeral.digit? 16 c = some d.val ∧ c.toLower = d.val.digitChar :=
  ascii_forall (P := fun c => IsDigit c →
    ∃ d : Fin 16, Numeral.digit? 16 c = some d.val ∧ c.toLower = d.val.digitChar)
    (by decide) h.toNat_lt h

/-- A digit is no sign, no part of a mark that could not be a digit, and no blank. -/
theorem ne_other (h : IsDigit c) : c ≠ '+' ∧ c ≠ 'x' ∧ Blank.isBlank c = false :=
  ascii_forall (P := fun c => IsDigit c → c ≠ '+' ∧ c ≠ 'x' ∧ Blank.isBlank c = false)
    (by decide) h.toNat_lt h

end IsDigit

/-- Targets take the same characters for digits. -/
theorem isDigit_iff {c : Char} : Target.isDigit c = true ↔ IsDigit c := by
  constructor
  · exact isDigit_of_digit?
  · intro h
    obtain ⟨d, hd, -⟩ := h.exists_value
    rw [Target.isDigit, hd]
    rfl

/-! ### Pairs -/

/-- A text that does not begin with a sign is read from its first character on. -/
theorem read_of_ne_plus {base bound : Nat} {c : Char} (cs : List Char) (h : c ≠ '+') :
    Numeral.read base bound (c :: cs) = Numeral.readDigits base bound 0 (c :: cs) := by
  unfold Numeral.read
  split
  · rename_i heq; cases heq
  · rename_i heq; exact absurd (List.cons.inj heq).1 h
  · rename_i heq; exact absurd (List.cons.inj heq).1 h
  · rfl

/-- Two digits are read as a byte. -/
theorem read_pair {c d : Char} {hi lo : Nat} (hdigit : IsDigit c)
    (hc : Numeral.digit? 16 c = some hi) (hd : Numeral.digit? 16 d = some lo) (hhi : hi < 16)
    (hlo : lo < 16) : Numeral.read 16 256 [c, d] = .ok (hi * 16 + lo) := by
  have hfits : hi < 256 ∧ hi * 16 + lo < 256 := by omega
  rw [read_of_ne_plus _ hdigit.ne_other.1]
  simp [Numeral.readDigits, hc, hd, hfits]

/-! ### Texts of digits -/

namespace Spells

variable {text digits : List Char}

theorem dropMark_eq (h : Spells text digits) : dropMark text = digits := by
  obtain ⟨rfl | rfl, hdigits⟩ := h
  · unfold dropMark
    split
    · -- The second character of a mark is no digit.
      exact absurd rfl (hdigits 'x' (by simp)).ne_other.2.1
    · rfl
  · rfl

theorem not_isBlank (h : Spells text digits) : ∀ c ∈ text, Blank.isBlank c = false := by
  have hdigits : ∀ c ∈ digits, Blank.isBlank c = false := fun c hc => (h.2 c hc).ne_other.2.2
  obtain ⟨rfl | rfl, -⟩ := h
  · exact hdigits
  · exact List.forall_mem_cons.2 ⟨rfl, List.forall_mem_cons.2 ⟨rfl, hdigits⟩⟩

theorem ascii (h : Spells text digits) : ¬ (digits.any fun c => 0x80 ≤ c.toNat) = true := by
  rw [List.any_eq_true]
  rintro ⟨c, hc, hpast⟩
  have hlt := (h.2 c hc).toNat_lt
  simp at hpast
  omega

/-- Of a text that spells digits, the digits are read. -/
theorem decode_eq {text : String} (h : Spells text.toList digits) :
    decode text = decodeDigits digits := by
  rw [decode, Blank.trim_eq_self h.not_isBlank, h.dropMark_eq]

/-- An odd number of digits is refused. -/
theorem decode_of_odd {text : String} (h : Spells text.toList digits)
    (hodd : digits.length % 2 ≠ 0) : decode text = .error (.oddLength digits.length) := by
  rw [h.decode_eq, decodeDigits, if_neg h.ascii, if_pos hodd]

/-- An even number of digits is read two at a time. -/
theorem decode_of_pairs {text : String} {bs : Bytes} (h : Spells text.toList digits)
    (heven : digits.length % 2 = 0) (hread : decodePairs digits = some bs) :
    decode text = .ok bs := by
  rw [h.decode_eq, decodeDigits, if_neg h.ascii, if_neg (fun hodd => hodd heven), hread]

end Spells

/-- Code is what spells digits. -/
theorem isCode_iff {text : List Char} :
    Target.isCode text = true ↔ ∃ digits, Spells text digits := by
  rw [Target.isCode, List.all_eq_true]
  constructor
  · intro h
    refine ⟨dropMark text, ?_, fun c hc => isDigit_iff.1 (h c hc)⟩
    unfold dropMark
    split
    · exact .inr rfl
    · exact .inl rfl
  · rintro ⟨digits, h⟩ c hc
    rw [h.dropMark_eq] at hc
    exact isDigit_iff.2 (h.2 c hc)

end WordMachine.Hex
