import HeaderSync.Proofs.Compact.Value
import Mathlib.Data.Nat.Bitwise

/-!
# Reading a compact word

A word is read with shifts and masks, and whether it overflows is told from its size and its leading
bytes. All of this agrees with the value that the word stands for: the target is the value where it
has 256 bits, and a word is usable if its sign is clear and its value is positive and not too large.
-/

namespace HeaderSync.Compact

theorem mantissa_eq (c : Compact) : c.mantissa = (c.word &&& 0x7fffff).toNat :=
  (Nat.and_two_pow_sub_one_eq_mod c.word.toNat 23).symm

theorem signed_iff (c : Compact) : c.signed = true ↔ c.word &&& 0x800000 ≠ 0 := by
  have hmask : (c.word &&& 0x800000).toNat = c.signed.toNat * 2 ^ 23 :=
    Nat.and_two_pow c.word.toNat 23
  rw [ne_eq, ← UInt32.toNat_inj, hmask]
  cases c.signed <;> decide

theorem digits_eq (c : Compact) : c.digits = c.mantissa >>> (8 * (3 - c.size)) := by
  unfold digits
  split_ifs with h
  · rfl
  · rw [Nat.sub_eq_zero_of_le (by omega)]
    rfl

/-- Only a small size shifts digits out, and then they are no part of the value. -/
theorem digits_ne_zero_iff (c : Compact) : c.digits ≠ 0 ↔ 0 < c.value := by
  rw [← Nat.pos_iff_ne_zero]
  rcases Nat.le_total c.size 3 with h | h
  · rw [digits_of_le h]
  · rw [digits_of_ge h, value_of_ge h]
    exact (Nat.mul_pos_iff_of_pos_right (bytes_pos _)).symm

theorem isNegative_iff (c : Compact) : c.isNegative = true ↔ c.signed = true ∧ 0 < c.value := by
  rw [isNegative, Bool.and_eq_true, decide_eq_true_iff, digits_ne_zero_iff, and_comm]

theorem isValid_iff (c : Compact) :
    c.isValid = true ↔ c.signed = false ∧ 0 < c.value ∧ c.value < 2 ^ 256 := by
  simp only [isValid, Bool.and_eq_true, Bool.not_eq_true', decide_eq_true_iff]
  constructor
  · rintro ⟨⟨hsign, hfits⟩, hne⟩
    have hvalue := toNat_target_of_not_overflows hfits
    have hpos : 0 < c.value := by
      rw [← hvalue, Nat.pos_iff_ne_zero]
      exact fun hzero => hne (UInt256.toNat_inj.mp hzero)
    refine ⟨?_, hpos, hvalue ▸ c.target.toNat_lt_two_pow⟩
    rw [Bool.eq_false_iff]
    intro hsigned
    rw [c.isNegative_iff.mpr ⟨hsigned, hpos⟩] at hsign
    cases hsign
  · rintro ⟨hsign, hpos, hlt⟩
    have hfits : c.overflows = false := by
      rw [Bool.eq_false_iff, ne_eq, overflows_iff]
      omega
    refine ⟨⟨?_, hfits⟩, ?_⟩
    · rw [Bool.eq_false_iff, ne_eq, isNegative_iff, hsign]
      exact fun h => Bool.false_ne_true h.1
    · intro hzero
      rw [← toNat_target_of_not_overflows hfits, hzero] at hpos
      exact Nat.lt_irrefl 0 hpos

/-- For every word the flags and the target are those of one number, the floor of the mantissa
scaled by its size. -/
theorem reading_is_exact (word : UInt32) :
    let c : Compact := ⟨word⟩
    let size := (word >>> 24).toNat
    let mantissa := (word &&& 0x7fffff).toNat
    let value := mantissa * 256 ^ size / 256 ^ 3
    (c.overflows = true ↔ 2 ^ 256 ≤ value) ∧
      (c.overflows = false → c.target.toNat = value) ∧
      (c.isNegative = true ↔ word &&& 0x800000 ≠ 0 ∧ mantissa >>> (8 * (3 - size)) ≠ 0) ∧
      (c.isValid = true ↔ word &&& 0x800000 = 0 ∧ 0 < value ∧ value < 2 ^ 256) := by
  intro c size mantissa value
  have hsize : c.size = size := rfl
  have hmantissa : c.mantissa = mantissa := c.mantissa_eq
  have hvalue : c.value = value := by rw [Compact.value, hmantissa, hsize]
  have hclear : c.signed = false ↔ word &&& 0x800000 = 0 := by
    rw [Bool.eq_false_iff, ne_eq, c.signed_iff, not_not]
  refine ⟨?_, ?_, ?_, ?_⟩
  · rw [c.overflows_iff, hvalue]
  · intro hfits
    rw [toNat_target_of_not_overflows hfits, hvalue]
  · rw [c.isNegative_iff, c.signed_iff, ← c.digits_ne_zero_iff, c.digits_eq, hmantissa, hsize]
  · rw [c.isValid_iff, hclear, hvalue]

end HeaderSync.Compact
