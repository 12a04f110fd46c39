import HeaderSync.Proofs.Compact.Reading

/-!
# The work of a target

A target is met by `target + 1` of the `2 ^ 256` hashes, and the work of a word is the floor of their
quotient. The dividend has one bit too many for a word of 256 bits, so the quotient is taken of the
complement. For the target of a valid word no step of this leaves 256 bits, and the result is exact.
-/

namespace HeaderSync

theorem complement_div_succ {t : Nat} (h : t < 2 ^ 256) :
    (2 ^ 256 - 1 - t) / (t + 1) + 1 = 2 ^ 256 / (t + 1) := by
  rw [← Nat.add_div_right _ (Nat.succ_pos t)]
  congr 1
  omega

namespace UInt256

def toBitVec (v : UInt256) : BitVec 256 := .ofNatLT v.toNat v.toNat_lt_two_pow

/-- The work of a target in words of 256 bits. The greatest target has no successor there. -/
def wordWork (target : BitVec 256) : BitVec 256 :=
  if target.uaddOverflow 1 then 1 else ~~~target / (target + 1) + 1

variable {target : UInt256}

/-- Neither sum overflows, unless the target is zero or the greatest number. -/
theorem toNat_wordWork (hpos : 0 < target.toNat) (hlt : target.toNat + 1 < 2 ^ 256) :
    target.toBitVec.uaddOverflow 1 = false ∧
      (~~~target.toBitVec / (target.toBitVec + 1)).uaddOverflow 1 = false ∧
      (wordWork target.toBitVec).toNat = 2 ^ 256 / (target.toNat + 1) := by
  have hone : (1 : BitVec 256).toNat = 1 := rfl
  have htarget : target.toBitVec.toNat = target.toNat := rfl
  have hdivisor : target.toBitVec.uaddOverflow 1 = false := by
    apply decide_eq_false
    omega
  have hquotient : (~~~target.toBitVec / (target.toBitVec + 1)).toNat + 1 =
      2 ^ 256 / (target.toNat + 1) := by
    rw [BitVec.toNat_udiv, BitVec.toNat_not,
      BitVec.toNat_add_of_not_uaddOverflow (Bool.eq_false_iff.mp hdivisor)]
    exact complement_div_succ target.toNat_lt_two_pow
  have hhalf : 2 ^ 256 / (target.toNat + 1) ≤ 2 ^ 256 / 2 :=
    Nat.div_le_div_left (by omega) (by omega)
  have hresult : (~~~target.toBitVec / (target.toBitVec + 1)).uaddOverflow 1 = false := by
    apply decide_eq_false
    omega
  refine ⟨hdivisor, hresult, ?_⟩
  rw [wordWork, hdivisor, if_neg Bool.false_ne_true,
    BitVec.toNat_add_of_not_uaddOverflow (Bool.eq_false_iff.mp hresult), hone, hquotient]

end UInt256

namespace Compact
variable {c d : Compact}

/-- A value is no longer than the mantissa, or it ends with a zero byte. -/
theorem value_succ_lt (h : c.value < 2 ^ 256) : c.value + 1 < 2 ^ 256 := by
  by_cases hsize : c.size ≤ 3
  · have hmantissa := c.mantissa_lt
    have hle : c.value ≤ c.mantissa := by
      rw [value_of_le hsize]
      exact Nat.div_le_self _ _
    omega
  · obtain ⟨n, hn⟩ : ∃ n, c.size - 3 = n + 1 := ⟨c.size - 4, by omega⟩
    have hbyte : c.value = c.mantissa * 256 ^ n * 256 := by
      rw [value_of_ge (by omega), hn, Nat.pow_succ, Nat.mul_assoc]
    omega

/-- The target of a valid word is neither zero nor the greatest number. -/
theorem target_of_isValid (h : c.isValid = true) :
    0 < c.target.toNat ∧ c.target.toNat + 1 < 2 ^ 256 := by
  obtain ⟨-, hpos, hlt⟩ := c.isValid_iff.mp h
  have hvalue : c.target.toNat = c.value := by rw [toNat_target, Nat.mod_eq_of_lt hlt]
  rw [hvalue]
  exact ⟨hpos, value_succ_lt hlt⟩

theorem toNat_work (h : c.isValid = true) : c.work.toNat = 2 ^ 256 / (c.target.toNat + 1) := by
  have hhalf : 2 ^ 256 / (c.target.toNat + 1) ≤ 2 ^ 256 / 2 :=
    Nat.div_le_div_left (by have := (target_of_isValid h).1; omega) (by omega)
  rw [work, if_pos h, UInt256.toNat_clamp, UInt256.toNat_greatest, Nat.one_shiftLeft,
    complement_div_succ c.target.toNat_lt_two_pow]
  omega

/-- A valid word is worth at least one hash. -/
theorem work_pos (h : c.isValid = true) : 0 < c.work.toNat := by
  rw [toNat_work h]
  exact Nat.div_pos (Nat.le_of_lt (target_of_isValid h).2) (Nat.succ_pos _)

theorem work_eq_zero_iff (c : Compact) : c.work = 0 ↔ c.isValid = false := by
  constructor
  · intro hzero
    rw [Bool.eq_false_iff]
    intro hvalid
    have hpos := work_pos hvalid
    rw [hzero] at hpos
    exact Nat.lt_irrefl 0 hpos
  · intro hinvalid
    rw [work, hinvalid, if_neg Bool.false_ne_true]

theorem isValid_eq_false_iff (c : Compact) :
    c.isValid = false ↔ c.isNegative = true ∨ c.overflows = true ∨ c.target = 0 := by
  rw [isValid]
  cases c.isNegative <;> cases c.overflows <;> simp

/-- The work of a valid word is the expected number of hashes, at least one, and 256 bits are enough
to compute it in. No other word has any work, and an easier target never has more. -/
theorem work_is_expected_hashes (c d : Compact) :
    (c.isValid = true → c.work.toNat = 2 ^ 256 / (c.target.toNat + 1) ∧ 1 ≤ c.work.toNat ∧
      c.target.toBitVec.uaddOverflow 1 = false ∧
      (~~~c.target.toBitVec / (c.target.toBitVec + 1)).uaddOverflow 1 = false ∧
      c.work.toBitVec = UInt256.wordWork c.target.toBitVec) ∧
    (c.work = 0 ↔ c.isNegative = true ∨ c.overflows = true ∨ c.target = 0) ∧
    (c.isValid = true → d.isValid = true → c.target ≤ d.target → d.work ≤ c.work) := by
  refine ⟨?_, ?_, ?_⟩
  · intro hvalid
    obtain ⟨hpos, hlt⟩ := target_of_isValid hvalid
    obtain ⟨hdivisor, hresult, hword⟩ := UInt256.toNat_wordWork hpos hlt
    refine ⟨toNat_work hvalid, work_pos hvalid, hdivisor, hresult, ?_⟩
    apply BitVec.eq_of_toNat_eq
    rw [hword]
    exact toNat_work hvalid
  · rw [work_eq_zero_iff, isValid_eq_false_iff]
  · intro hc hd hle
    rw [UInt256.le_iff, toNat_work hc, toNat_work hd]
    exact Nat.div_le_div_left (Nat.succ_le_succ hle) (Nat.succ_pos _)

/-- Two valid words, the second with the easier target. -/
theorem work_is_expected_hashes_easier :
    let c : Compact := ⟨0x1d00ffff⟩
    let d : Compact := ⟨0x1e0fffff⟩
    c.isValid = true ∧ d.isValid = true ∧ c.target ≤ d.target ∧ c.work.toNat = 0x100010001 ∧
      c.work.toBitVec = UInt256.wordWork c.target.toBitVec ∧ d.work ≤ c.work := by
  intro c d
  have hc : c.isValid = true := by decide +kernel
  have hd : d.isValid = true := by decide +kernel
  have hle : c.target ≤ d.target := by decide +kernel
  obtain ⟨hwork, -, hmono⟩ := work_is_expected_hashes c d
  obtain ⟨hfloor, -, -, -, hword⟩ := hwork hc
  exact ⟨hc, hd, hle, hfloor.trans (by decide +kernel), hword, hmono hc hd hle⟩

end Compact
end HeaderSync
