import HeaderSync.Proofs.Compact.Value

/-!
# Rounding to a compact word

The compact form of a number has the least size whose bytes hold twice the number, so that the sign
bit stays clear, and the mantissa is what is left of the number above the low bytes. No word has a
value strictly between the value of this one and the number. So rounding is the floor onto the
targets that words can express: it keeps the order, and it changes nothing that is rounded already.
-/

namespace HeaderSync

namespace UInt256

theorem toNat_lt_byteLength (v : UInt256) : v.toNat < 256 ^ v.byteLength := by
  rw [Compact.bytes_eq_two_pow]
  unfold byteLength bitLength
  split_ifs with hzero
  · simp [hzero]
  · apply Nat.lt_of_lt_of_le Nat.lt_log2_self
    exact Nat.pow_le_pow_right (by omega) (by omega)

theorem le_toNat_of_lt_byteLength (v : UInt256) {n : Nat} (h : n < v.byteLength) :
    256 ^ n ≤ v.toNat := by
  rw [Compact.bytes_eq_two_pow]
  unfold byteLength bitLength at h
  split_ifs at h with hzero
  · exact absurd h (Nat.not_lt_zero n)
  · apply Nat.le_trans _ (Nat.log2_self_le hzero)
    exact Nat.pow_le_pow_right (by omega) (by omega)

theorem byteLength_le (v : UInt256) : v.byteLength ≤ 32 := by
  unfold byteLength bitLength
  split_ifs with hzero
  · omega
  · have := (Nat.log2_lt hzero).mpr v.toNat_lt_two_pow
    omega

end UInt256

namespace Compact
variable {v w : Nat} {c d : Compact}

theorem leading_eq (v : UInt256) (size : Nat) :
    leading v size = v.toNat * 256 ^ 3 / 256 ^ size := by
  unfold leading
  split_ifs with h
  · rw [shift_of_ge h, Nat.shiftLeft_eq, Nat.pow_mul]
  · rw [shift_of_le (by omega), Nat.shiftRight_eq_div_pow, Nat.pow_mul]

/-- The compact form of a number. -/
structure Normal (v : Nat) (c : Compact) : Prop where
  unsigned : c.signed = false
  fits : 2 * v < 256 ^ c.size
  tight : ∀ size < c.size, 256 ^ size ≤ 2 * v
  mantissa_eq : c.mantissa = v * 256 ^ 3 / 256 ^ c.size

theorem mantissa_lt_of_fits {size : Nat} (h : 2 * v < 256 ^ size) :
    v * 256 ^ 3 / 256 ^ size < 0x800000 := by
  rw [Nat.div_lt_iff_lt_mul (bytes_pos _)]
  omega

theorem Normal.of_pack {size : Nat} (hs : size < 256) (fits : 2 * v < 256 ^ size)
    (tight : ∀ n < size, 256 ^ n ≤ 2 * v) :
    Normal v (pack size (v * 256 ^ 3 / 256 ^ size)) := by
  have hm := mantissa_lt_of_fits fits
  have hsize := size_pack hs hm
  refine ⟨signed_pack hs hm, ?_, ?_, ?_⟩
  · rwa [hsize]
  · rwa [hsize]
  · rw [hsize, mantissa_pack hs hm]

theorem normal_ofTarget (v : UInt256) : Normal v.toNat (ofTarget v) := by
  have hlt := v.toNat_lt_byteLength
  have hle {n : Nat} (hn : n < v.byteLength) := v.le_toNat_of_lt_byteLength hn
  have hsize := v.byteLength_le
  unfold ofTarget
  simp only [leading_eq]
  generalize v.byteLength = size at hlt hle hsize ⊢
  split_ifs with hbig
  · -- The leading byte reaches the sign bit, so twice the number needs one byte more.
    have hdouble : 256 ^ size ≤ 2 * v.toNat := by
      rw [Nat.le_div_iff_mul_le (bytes_pos size)] at hbig
      omega
    have hmantissa : (v.toNat * 256 ^ 3 / 256 ^ size) >>> 8 =
        v.toNat * 256 ^ 3 / 256 ^ (size + 1) := by
      rw [Nat.shiftRight_eq_div_pow, Nat.div_div_eq_div_mul, Nat.pow_succ (m := size)]
    rw [hmantissa]
    apply Normal.of_pack (by omega)
    · rw [Nat.pow_succ]
      omega
    · intro n hn
      rcases Nat.eq_or_lt_of_le (Nat.le_of_lt_succ hn) with rfl | hn
      · exact hdouble
      · have := hle hn
        omega
  · apply Normal.of_pack (by omega)
    · rw [Nat.not_le, Nat.div_lt_iff_lt_mul (bytes_pos size)] at hbig
      omega
    · intro n hn
      have := hle hn
      omega

namespace Normal

/-- The value drops the bytes below the mantissa. -/
theorem value_eq (hc : Normal v c) : c.value = v / 256 ^ (c.size - 3) * 256 ^ (c.size - 3) := by
  by_cases h : c.size ≤ 3
  · rw [value_of_le h, hc.mantissa_eq, shift_of_ge h, Nat.mul_div_cancel _ (bytes_pos _),
      Nat.sub_eq_zero_of_le h, Nat.pow_zero, Nat.div_one, Nat.mul_one]
  · have hge : 3 ≤ c.size := by omega
    rw [value_of_ge hge, hc.mantissa_eq, shift_of_le hge]

/-- Numbers of up to three bytes, sign bit included, are kept whole. -/
theorem value_eq_self (hc : Normal v c) (h : c.size ≤ 3) : c.value = v := by
  rw [hc.value_eq, Nat.sub_eq_zero_of_le h, Nat.pow_zero, Nat.div_one, Nat.mul_one]

theorem value_le (hc : Normal v c) : c.value ≤ v := by
  rw [hc.value_eq]
  exact Nat.div_mul_le_self _ _

/-- A multiple of the last kept byte that does not exceed the number does not exceed its value. -/
theorem le_value_of_dvd (hc : Normal v c) {n : Nat} (hdvd : 256 ^ (c.size - 3) ∣ n) (hn : n ≤ v) :
    n ≤ c.value := by
  obtain ⟨k, rfl⟩ := hdvd
  rw [hc.value_eq, Nat.mul_comm]
  apply Nat.mul_le_mul_right
  rwa [Nat.le_div_iff_mul_le (bytes_pos _), Nat.mul_comm]

/-- Rounding does not fall to a smaller size. -/
theorem tight_value (hc : Normal v c) : ∀ size < c.size, 256 ^ size ≤ 2 * c.value := by
  intro size hsize
  by_cases h : c.size ≤ 3
  · rw [hc.value_eq_self h]
    exact hc.tight size hsize
  · -- Half of the largest power that twice the number reaches is a multiple of the last kept byte.
    obtain ⟨n, hn⟩ : ∃ n, c.size = n + 3 := ⟨c.size - 3, by omega⟩
    have hhalf : 2 * (0x8000 * 256 ^ n) = 256 ^ (n + 2) := by
      rw [Nat.pow_add]
      omega
    have htop := hc.tight (n + 2) (by omega)
    have hkept : 0x8000 * 256 ^ n ≤ c.value := by
      apply hc.le_value_of_dvd
      · rw [hn, Nat.add_sub_cancel]
        exact Nat.dvd_mul_left _ _
      · omega
    have hle : 256 ^ size ≤ 256 ^ (n + 2) := bytes_mono (by omega)
    omega

/-- No word lies between the number and its rounded value. -/
theorem value_le_value (hc : Normal v c) (hd : d.value ≤ v) : d.value ≤ c.value := by
  rcases Nat.lt_or_ge d.size c.size with hlt | hge
  · have := hc.tight_value d.size hlt
    have := d.two_mul_value_lt
    omega
  · apply hc.le_value_of_dvd _ hd
    by_cases h : d.size ≤ 3
    · rw [Nat.sub_eq_zero_of_le (Nat.le_trans hge h)]
      exact Nat.one_dvd _
    · rw [value_of_ge (by omega)]
      apply Nat.dvd_mul_left_of_dvd
      exact Nat.pow_dvd_pow 256 (by omega)

/-- The word is also the compact form of the value that it rounds to. -/
theorem of_value (hc : Normal v c) : Normal c.value c := by
  refine ⟨hc.unsigned, ?_, hc.tight_value, ?_⟩
  · have := hc.fits
    have := hc.value_le
    omega
  · by_cases h : c.size ≤ 3
    · rw [hc.value_eq_self h]
      exact hc.mantissa_eq
    · have hge : 3 ≤ c.size := by omega
      rw [value_of_ge hge, shift_of_le hge]
      exact (Nat.mul_div_cancel _ (bytes_pos _)).symm

theorem size_le_size (hc : Normal v c) (hd : Normal w d) (h : v ≤ w) : c.size ≤ d.size := by
  by_contra hlt
  have := hc.tight d.size (by omega)
  have := hd.fits
  omega

/-- Words are in the order of the numbers that they are the compact forms of. -/
theorem word_le_word (hc : Normal v c) (hd : Normal w d) (h : v ≤ w) : c.word ≤ d.word := by
  rw [UInt32.le_iff_toNat_le, toNat_word hc.unsigned, toNat_word hd.unsigned]
  have hmantissa := c.mantissa_lt
  rcases Nat.eq_or_lt_of_le (hc.size_le_size hd h) with heq | hlt
  · have hle : c.mantissa ≤ d.mantissa := by
      rw [hc.mantissa_eq, hd.mantissa_eq, heq]
      exact Nat.div_le_div_right (Nat.mul_le_mul_right _ h)
    omega
  · omega

theorem unique (hc : Normal v c) (hd : Normal v d) : c = d := by
  have hword : c.word = d.word := by
    apply UInt32.toNat_inj.mp
    apply Nat.le_antisymm
    · exact UInt32.le_iff_toNat_le.mp (hc.word_le_word hd (Nat.le_refl v))
    · exact UInt32.le_iff_toNat_le.mp (hd.word_le_word hc (Nat.le_refl v))
  exact congrArg Compact.mk hword

end Normal

theorem isNegative_ofTarget (v : UInt256) : (ofTarget v).isNegative = false := by
  rw [isNegative, (normal_ofTarget v).unsigned, Bool.and_false]

theorem overflows_ofTarget (v : UInt256) : (ofTarget v).overflows = false := by
  have hle := (normal_ofTarget v).value_le
  have hwidth := v.toNat_lt_two_pow
  rw [Bool.eq_false_iff, ne_eq, overflows_iff]
  omega

theorem toNat_round (v : UInt256) : (round v).toNat = (ofTarget v).value :=
  toNat_target_of_not_overflows (overflows_ofTarget v)

theorem round_le (v : UInt256) : round v ≤ v := by
  rw [UInt256.le_iff, toNat_round]
  exact (normal_ofTarget v).value_le

theorem le_round {v : UInt256} (hd : d.overflows = false) (h : d.target ≤ v) :
    d.target ≤ round v := by
  rw [UInt256.le_iff, toNat_target_of_not_overflows hd] at h ⊢
  rw [toNat_round]
  exact (normal_ofTarget v).value_le_value h

theorem round_mono {v w : UInt256} (h : v ≤ w) : round v ≤ round w :=
  le_round (overflows_ofTarget v) (Nat.le_trans (round_le v) h)

/-- The number one can be expressed. -/
theorem round_pos {v : UInt256} (h : 0 < v.toNat) : 0 < (round v).toNat := by
  have hone : (⟨0x01010000⟩ : Compact).target.toNat = 1 := by decide
  have hle : (⟨0x01010000⟩ : Compact).target ≤ round v := by
    apply le_round (by decide)
    rw [UInt256.le_iff, hone]
    exact h
  rw [UInt256.le_iff, hone] at hle
  exact hle

theorem round_target (hd : d.overflows = false) : round d.target = d.target :=
  UInt256.ext (Nat.le_antisymm (round_le d.target) (le_round hd (Nat.le_refl _)))

theorem ofTarget_round (v : UInt256) : ofTarget (round v) = ofTarget v := by
  have hround := normal_ofTarget (round v)
  rw [toNat_round] at hround
  exact hround.unique (normal_ofTarget v).of_value

/-- The compact form of a number has no sign and does not overflow, and of all words that do not
overflow, with or without a sign, it has the greatest target up to the number. So rounding keeps the
order and has every such target as a fixed point, compact forms are ordered as the numbers are, and
the compact form of a rounded number is the same word. -/
theorem round_is_floor :
    (∀ v : UInt256, (ofTarget v).isNegative = false ∧ (ofTarget v).overflows = false ∧
      (ofTarget v).target ≤ v ∧
      ∀ d : Compact, d.overflows = false → d.target ≤ v → d.target ≤ (ofTarget v).target) ∧
      (∀ v w : UInt256, v ≤ w → round v ≤ round w ∧ (ofTarget v).word ≤ (ofTarget w).word) ∧
      (∀ v : UInt256, round (round v) = round v ∧ ofTarget (ofTarget v).target = ofTarget v) ∧
      ∀ d : Compact, d.overflows = false → round d.target = d.target := by
  refine ⟨?_, ?_, ?_, fun d hd => round_target hd⟩
  · intro v
    exact ⟨isNegative_ofTarget v, overflows_ofTarget v, round_le v, fun d hd h => le_round hd h⟩
  · intro v w h
    exact ⟨round_mono h, (normal_ofTarget v).word_le_word (normal_ofTarget w) h⟩
  · intro v
    exact ⟨round_target (overflows_ofTarget v), ofTarget_round v⟩

end Compact
end HeaderSync
