import HeaderSync.Compact
import Mathlib.Tactic.Linarith

/-!
# The value of a compact word

A word stands for `mantissa * 256 ^ size / 256 ^ 3`, rounded down, of whatever size that number is.
Reading the word gives this value cut to 256 bits, and the overflow flag tells whether the cut took
anything away.
-/

namespace HeaderSync

theorem UInt256.toNat_lt_two_pow (v : UInt256) : v.toNat < 2 ^ 256 :=
  Nat.one_shiftLeft 256 ▸ v.toNat_lt

namespace Compact

theorem bytes_pos (n : Nat) : 0 < 256 ^ n := Nat.pow_pos (by omega)

theorem bytes_mono {m n : Nat} (h : m ≤ n) : 256 ^ m ≤ 256 ^ n := Nat.pow_le_pow_right (by omega) h

theorem bytes_eq_two_pow (n : Nat) : 256 ^ n = 2 ^ (8 * n) := (Nat.pow_mul 2 8 n).symm

/-- A shift by whole bytes that goes up by `n` bytes and down by `m`, further up than down. -/
theorem shift_of_ge {m n : Nat} (h : m ≤ n) (x : Nat) :
    x * 256 ^ n / 256 ^ m = x * 256 ^ (n - m) := by
  rw [← pow_sub_mul_pow 256 h, ← Nat.mul_assoc]
  exact Nat.mul_div_cancel _ (bytes_pos _)

/-- The same shift, further down than up. -/
theorem shift_of_le {m n : Nat} (h : n ≤ m) (x : Nat) :
    x * 256 ^ n / 256 ^ m = x / 256 ^ (m - n) := by
  rw [← pow_sub_mul_pow 256 h]
  exact Nat.mul_div_mul_right _ _ (bytes_pos _)

/-- What the word stands for, its sign aside. -/
def value (c : Compact) : Nat := c.mantissa * 256 ^ c.size / 256 ^ 3

variable {c d : Compact} {size mantissa : Nat}

theorem mantissa_lt (c : Compact) : c.mantissa < 0x800000 := Nat.mod_lt _ (by decide)

theorem value_of_le (h : c.size ≤ 3) : c.value = c.mantissa / 256 ^ (3 - c.size) :=
  shift_of_le h _

theorem value_of_ge (h : 3 ≤ c.size) : c.value = c.mantissa * 256 ^ (c.size - 3) :=
  shift_of_ge h _

/-- The mantissa is less than half of `256 ^ 3`. -/
theorem two_mul_value_lt (c : Compact) : 2 * c.value < 256 ^ c.size := by
  have hmantissa := c.mantissa_lt
  have hdiv : c.value * 256 ^ 3 ≤ c.mantissa * 256 ^ c.size := Nat.div_mul_le_self _ _
  have hhalf : 2 * c.mantissa * 256 ^ c.size < 256 ^ 3 * 256 ^ c.size :=
    Nat.mul_lt_mul_of_pos_right (by omega) (bytes_pos _)
  nlinarith

theorem digits_of_le (h : c.size ≤ 3) : c.digits = c.value := by
  rw [digits, if_pos h, value_of_le h, Nat.shiftRight_eq_div_pow, Nat.pow_mul]

theorem digits_of_ge (h : 3 ≤ c.size) : c.digits = c.mantissa := by
  rcases Nat.eq_or_lt_of_le h with heq | hlt
  · rw [digits, if_pos (Nat.le_of_eq heq.symm), ← heq]
    rfl
  · rw [digits, if_neg (Nat.not_le.mpr hlt)]

/-- Reading a word cuts its value to 256 bits. -/
theorem toNat_target (c : Compact) : c.target.toNat = c.value % 2 ^ 256 := by
  have hwidth : (1 : Nat) <<< 256 = 2 ^ 256 := Nat.one_shiftLeft 256
  unfold target
  split_ifs with h
  · rw [UInt256.toNat_wrap, digits_of_le h, hwidth]
  · have hge : 3 ≤ c.size := by omega
    rw [UInt256.toNat_wrap, digits_of_ge hge, value_of_ge hge, Nat.shiftLeft_eq, Nat.pow_mul, hwidth]

/-- The overflow flag is set for the values of more than 256 bits. -/
theorem overflows_iff (c : Compact) : c.overflows = true ↔ 2 ^ 256 ≤ c.value := by
  have hmantissa := c.mantissa_lt
  have hlimit : 256 ^ 32 = 2 ^ 256 := bytes_eq_two_pow 32
  by_cases hsmall : c.size ≤ 32
  · -- The value has no more than 32 bytes.
    have hvalue := c.two_mul_value_lt
    have hpow := bytes_mono hsmall
    simp only [overflows, Bool.and_eq_true, Bool.or_eq_true, decide_eq_true_eq]
    omega
  · obtain ⟨n, hn⟩ : ∃ n, c.size - 3 = n + 30 := ⟨c.size - 33, by omega⟩
    have hvalue : c.value = c.mantissa * 256 ^ n * 256 ^ 30 := by
      rw [value_of_ge (by omega), hn, Nat.pow_add, Nat.mul_assoc]
    have hiff : 2 ^ 256 ≤ c.value ↔ 65536 ≤ c.mantissa * 256 ^ n := by
      rw [hvalue, ← hlimit]
      omega
    rw [hiff]
    simp only [overflows, digits_of_ge (show 3 ≤ c.size by omega), Bool.and_eq_true,
      Bool.or_eq_true, decide_eq_true_eq]
    rcases n with _ | _ | n
    · omega
    · omega
    · constructor
      · rintro ⟨hne, -⟩
        calc 65536 ≤ 256 ^ (n + 2) := bytes_mono (Nat.le_add_left 2 n)
          _ ≤ c.mantissa * 256 ^ (n + 2) := Nat.le_mul_of_pos_left _ (Nat.pos_of_ne_zero hne)
      · intro hle
        refine ⟨?_, by omega⟩
        intro hzero
        rw [hzero, Nat.zero_mul] at hle
        omega

theorem toNat_target_of_not_overflows (h : c.overflows = false) : c.target.toNat = c.value := by
  rw [toNat_target]
  apply Nat.mod_eq_of_lt
  rw [← Nat.not_le, ← overflows_iff, h]
  exact Bool.false_ne_true

/-- A word without a sign is its size and its mantissa side by side. -/
theorem toNat_word (h : c.signed = false) : c.word.toNat = c.size * 0x1000000 + c.mantissa := by
  have hbit : c.word.toNat / 2 ^ 23 % 2 ≠ 1 := by
    simpa [signed, Nat.testBit_eq_decide_div_mod_eq] using h
  rw [size, mantissa, Nat.shiftRight_eq_div_pow]
  omega

theorem toNat_word_pack (hs : size < 256) (hm : mantissa < 0x800000) :
    (pack size mantissa).word.toNat = size * 0x1000000 + mantissa := by
  have hword : (size <<< 24) + mantissa < 2 ^ 32 := by
    rw [Nat.shiftLeft_eq]
    omega
  rw [pack, UInt32.toNat_ofNat_of_lt' hword, Nat.shiftLeft_eq]

theorem size_pack (hs : size < 256) (hm : mantissa < 0x800000) :
    (pack size mantissa).size = size := by
  rw [Compact.size, toNat_word_pack hs hm, Nat.shiftRight_eq_div_pow]
  omega

theorem mantissa_pack (hs : size < 256) (hm : mantissa < 0x800000) :
    (pack size mantissa).mantissa = mantissa := by
  rw [Compact.mantissa, toNat_word_pack hs hm]
  omega

theorem signed_pack (hs : size < 256) (hm : mantissa < 0x800000) :
    (pack size mantissa).signed = false := by
  rw [signed, toNat_word_pack hs hm, Nat.testBit_eq_decide_div_mod_eq, decide_eq_false_iff_not]
  omega

end Compact
end HeaderSync
