import Mathlib.Algebra.Ring.Int.Defs
import Mathlib.Algebra.Ring.Nat
import WordMachine.Word

/-! # Word operations as numbers

What each operation computes, as an operation on the numbers that its operands are.

* **Order of operands.** Division and remainder take the divisor from the top of the stack; shifts
  take the word that is shifted from there.
* **One view.** `Computes a b` lists the number of every result (`computes`). The laws that relate
  operations to each other follow from it by arithmetic on numbers below `2 ^ 256`: a difference is
  undone by subtracting it, a quotient and a remainder make up the dividend, of the comparisons
  exactly one holds, and two shifts in a row are one.

`operations_compute` puts these together. -/

namespace WordMachine.Word

/-! ### Single operations -/

theorem sub_add_cancel (a b : Word) : sub a b + b = a := BitVec.sub_add_cancel a b

theorem toNat_add (a b : Word) : (add a b).toNat = (a.toNat + b.toNat) % 2 ^ 256 :=
  BitVec.toNat_add a b

theorem toNat_mul (a b : Word) : (mul a b).toNat = a.toNat * b.toNat % 2 ^ 256 :=
  BitVec.toNat_mul a b

/-- A difference wraps as the remainder of the integer does. -/
theorem toNat_sub (a b : Word) :
    ((sub a b).toNat : Int) = ((a.toNat : Int) - b.toNat) % 2 ^ 256 := by
  have hb : b.toNat < 2 ^ 256 := b.isLt
  have hsub : (sub a b).toNat = (2 ^ 256 - b.toNat + a.toNat) % 2 ^ 256 := BitVec.toNat_sub a b
  rw [hsub]
  omega

theorem toNat_div (a b : Word) : (div a b).toNat = b.toNat / a.toNat := by
  unfold div
  split
  · rename_i h
    rw [h]
    simp
  · exact BitVec.toNat_udiv

theorem toNat_rem (a b : Word) :
    (rem a b).toNat = if a = 0#256 then 0 else b.toNat % a.toNat := by
  unfold rem
  split
  · rfl
  · exact BitVec.toNat_umod

theorem toNat_ofCondition (p : Bool) : (ofCondition p).toNat = if p then 1 else 0 := by
  cases p <;> rfl

theorem toNat_lt (a b : Word) : (lt a b).toNat = if a.toNat < b.toNat then 1 else 0 := by
  rw [lt, toNat_ofCondition]
  simp only [decide_eq_true_eq]

theorem toNat_gt (a b : Word) : (gt a b).toNat = if b.toNat < a.toNat then 1 else 0 := by
  rw [gt, toNat_ofCondition]
  simp only [decide_eq_true_eq]

theorem toNat_eq (a b : Word) : (eq a b).toNat = if a.toNat = b.toNat then 1 else 0 := by
  rw [eq, toNat_ofCondition]
  simp only [beq_iff_eq, ← BitVec.toNat_inj]

theorem toNat_not (a : Word) : (not a).toNat = 2 ^ 256 - 1 - a.toNat := BitVec.toNat_not

/-- A shift to the left by 256 bits or more loses every bit, as the product says. -/
theorem toNat_shl (a b : Word) : (shl a b).toNat = a.toNat * 2 ^ b.toNat % 2 ^ 256 := by
  unfold shl
  split
  · rw [BitVec.toNat_shiftLeft, Nat.shiftLeft_eq]
  · rename_i h
    have hdvd : 2 ^ 256 ∣ a.toNat * 2 ^ b.toNat :=
      Nat.dvd_trans (Nat.pow_dvd_pow 2 (Nat.le_of_not_lt h)) (Nat.dvd_mul_left _ _)
    rw [Nat.mod_eq_zero_of_dvd hdvd]
    rfl

/-- A shift to the right by 256 bits or more loses every bit, as the quotient says. -/
theorem toNat_shr (a b : Word) : (shr a b).toNat = a.toNat / 2 ^ b.toNat := by
  unfold shr
  split
  · rw [BitVec.toNat_ushiftRight, Nat.shiftRight_eq_div_pow]
  · rename_i h
    have hlt : a.toNat < 2 ^ b.toNat :=
      Nat.lt_of_lt_of_le a.isLt (Nat.pow_le_pow_right (by decide) (Nat.le_of_not_lt h))
    rw [Nat.div_eq_of_lt hlt]
    rfl

/-- The number of every result, for `a` from the top of the stack and `b` beneath it. -/
structure Computes (a b : Word) : Prop where
  add : (Word.add a b).toNat = (a.toNat + b.toNat) % 2 ^ 256
  mul : (Word.mul a b).toNat = a.toNat * b.toNat % 2 ^ 256
  sub : ((Word.sub a b).toNat : Int) = ((a.toNat : Int) - b.toNat) % 2 ^ 256
  div : (Word.div a b).toNat = if a = 0#256 then 0 else b.toNat / a.toNat
  rem : (Word.rem a b).toNat = if a = 0#256 then 0 else b.toNat % a.toNat
  lt : (Word.lt a b).toNat = if a.toNat < b.toNat then 1 else 0
  gt : (Word.gt a b).toNat = if b.toNat < a.toNat then 1 else 0
  eq : (Word.eq a b).toNat = if a.toNat = b.toNat then 1 else 0
  and : ∀ i, (Word.and a b).toNat.testBit i = (a.toNat.testBit i && b.toNat.testBit i)
  or : ∀ i, (Word.or a b).toNat.testBit i = (a.toNat.testBit i || b.toNat.testBit i)
  xor : ∀ i, (Word.xor a b).toNat.testBit i = (a.toNat.testBit i ^^ b.toNat.testBit i)
  not : (Word.not a).toNat = 2 ^ 256 - 1 - a.toNat
  shl : (Word.shl a b).toNat = a.toNat * 2 ^ b.toNat % 2 ^ 256
  shr : (Word.shr a b).toNat = a.toNat / 2 ^ b.toNat

theorem computes (a b : Word) : Computes a b where
  add := toNat_add a b
  mul := toNat_mul a b
  sub := toNat_sub a b
  div := by
    rw [toNat_div]
    split
    · rename_i h
      rw [h, BitVec.toNat_zero, Nat.div_zero]
    · rfl
  rem := toNat_rem a b
  lt := toNat_lt a b
  gt := toNat_gt a b
  eq := toNat_eq a b
  and := fun i => by rw [Word.and, BitVec.toNat_and, Nat.testBit_and, Bool.and_comm]
  or := fun i => by rw [Word.or, BitVec.toNat_or, Nat.testBit_or, Bool.or_comm]
  xor := fun i => by rw [Word.xor, BitVec.toNat_xor, Nat.testBit_xor, Bool.xor_comm]
  not := toNat_not a
  shl := toNat_shl a b
  shr := toNat_shr a b

/-! ### Laws -/

theorem toNat_pos {a : Word} (h : a ≠ 0#256) : 0 < a.toNat := by
  apply Nat.pos_of_ne_zero
  intro hzero
  exact h (BitVec.eq_of_toNat_eq hzero)

/-- A difference is undone by subtracting it. -/
theorem sub_sub_self (a b : Word) : sub a (sub a b) = b := by
  apply BitVec.eq_of_toNat_eq
  have ha : a.toNat < 2 ^ 256 := a.isLt
  have hb : b.toNat < 2 ^ 256 := b.isLt
  have hinner := toNat_sub a b
  have houter := toNat_sub a (sub a b)
  rw [hinner] at houter
  omega

theorem rem_lt {a : Word} (h : a ≠ 0#256) (b : Word) : (rem a b).toNat < a.toNat := by
  rw [toNat_rem, if_neg h]
  exact Nat.mod_lt _ (toNat_pos h)

/-- Quotient and remainder make up the dividend, without wrapping on the way. -/
theorem div_mul_add_rem {a : Word} (h : a ≠ 0#256) (b : Word) :
    add (mul (div a b) a) (rem a b) = b := by
  apply BitVec.eq_of_toNat_eq
  have hb : b.toNat < 2 ^ 256 := b.isLt
  have hwhole : b.toNat / a.toNat * a.toNat + b.toNat % a.toNat = b.toNat :=
    Nat.div_add_mod' b.toNat a.toNat
  have hproduct : b.toNat / a.toNat * a.toNat < 2 ^ 256 := by omega
  rw [toNat_add, toNat_mul, toNat_div, toNat_rem, if_neg h, Nat.mod_eq_of_lt hproduct, hwhole,
    Nat.mod_eq_of_lt hb]

/-- Of the comparisons exactly one holds. -/
theorem count_comparisons (a b : Word) : [lt a b, gt a b, eq a b].count 1#256 = 1 := by
  rcases Nat.lt_trichotomy a.toNat b.toNat with h | h | h
  · have hne : a ≠ b := by
      rintro rfl
      omega
    have hgt : ¬ b.toNat < a.toNat := by omega
    simp [lt, gt, eq, ofCondition, h, hgt, hne]
  · have heq : a = b := BitVec.eq_of_toNat_eq h
    simp [lt, gt, eq, ofCondition, heq]
  · have hne : a ≠ b := by
      rintro rfl
      omega
    have hlt : ¬ a.toNat < b.toNat := by omega
    simp [lt, gt, eq, ofCondition, h, hlt, hne]

theorem toNat_add_of_lt {a b : Word} (h : a.toNat + b.toNat < 2 ^ 256) :
    (add a b).toNat = a.toNat + b.toNat := by
  rw [toNat_add, Nat.mod_eq_of_lt h]

/-- Two shifts to the left are one, also where either loses every bit. -/
theorem shl_shl (a : Word) {b c : Word} (h : b.toNat + c.toNat < 2 ^ 256) :
    shl (shl a b) c = shl a (add b c) := by
  apply BitVec.eq_of_toNat_eq
  calc (shl (shl a b) c).toNat
      = a.toNat * 2 ^ b.toNat % 2 ^ 256 * 2 ^ c.toNat % 2 ^ 256 := by rw [toNat_shl, toNat_shl]
    _ = a.toNat * 2 ^ b.toNat * 2 ^ c.toNat % 2 ^ 256 := Nat.mod_mul_mod _ _ _
    _ = a.toNat * 2 ^ (b.toNat + c.toNat) % 2 ^ 256 := by rw [mul_assoc, ← pow_add]
    _ = (shl a (add b c)).toNat := by rw [toNat_shl, toNat_add_of_lt h]

/-- Two shifts to the right are one, also where either loses every bit. -/
theorem shr_shr (a : Word) {b c : Word} (h : b.toNat + c.toNat < 2 ^ 256) :
    shr (shr a b) c = shr a (add b c) := by
  apply BitVec.eq_of_toNat_eq
  calc (shr (shr a b) c).toNat
      = a.toNat / 2 ^ b.toNat / 2 ^ c.toNat := by rw [toNat_shr, toNat_shr]
    _ = a.toNat / 2 ^ (b.toNat + c.toNat) := by rw [Nat.div_div_eq_div_mul, ← pow_add]
    _ = (shr a (add b c)).toNat := by rw [toNat_shr, toNat_add_of_lt h]

/-- The operations compute the numbers of the list, so they obey the laws of these numbers. -/
theorem operations_compute (a b c : Word) :
    Computes a b ∧
      sub a (sub a b) = b ∧
      (a ≠ 0#256 → add (mul (div a b) a) (rem a b) = b ∧ (rem a b).toNat < a.toNat) ∧
      [lt a b, gt a b, eq a b].count 1#256 = 1 ∧
      (b.toNat + c.toNat < 2 ^ 256 →
        shl (shl a b) c = shl a (add b c) ∧ shr (shr a b) c = shr a (add b c)) := by
  refine ⟨computes a b, sub_sub_self a b, ?_, count_comparisons a b, ?_⟩
  · intro ha
    exact ⟨div_mul_add_rem ha b, rem_lt ha b⟩
  · intro hfits
    exact ⟨shl_shl a hfits, shr_shr a hfits⟩

/-- Shifts by `2 ^ 64` and by `2 ^ 255` bits, and the division of the first count. -/
theorem operations_compute_wide :
    7#256 ≠ 0#256 ∧
      (BitVec.ofNat 256 (2 ^ 64)).toNat + (BitVec.ofNat 256 (2 ^ 255)).toNat < 2 ^ 256 ∧
      add (mul (div 7#256 (BitVec.ofNat 256 (2 ^ 64))) 7#256)
        (rem 7#256 (BitVec.ofNat 256 (2 ^ 64))) = BitVec.ofNat 256 (2 ^ 64) ∧
      shl (shl 7#256 (BitVec.ofNat 256 (2 ^ 64))) (BitVec.ofNat 256 (2 ^ 255)) =
        shl 7#256 (add (BitVec.ofNat 256 (2 ^ 64)) (BitVec.ofNat 256 (2 ^ 255))) := by
  have hne : 7#256 ≠ 0#256 := by decide
  have hfits : (BitVec.ofNat 256 (2 ^ 64)).toNat + (BitVec.ofNat 256 (2 ^ 255)).toNat <
      2 ^ 256 := by decide
  obtain ⟨-, -, hdivision, -, hshifts⟩ :=
    operations_compute 7#256 (BitVec.ofNat 256 (2 ^ 64)) (BitVec.ofNat 256 (2 ^ 255))
  exact ⟨hne, hfits, (hdivision hne).1, (hshifts hfits).1⟩

end WordMachine.Word
