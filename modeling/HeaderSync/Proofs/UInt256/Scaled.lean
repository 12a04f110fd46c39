import HeaderSync.Proofs.Compact.Value

/-!
# Scaled numbers

A number is scaled by a quotient of two 64-bit numbers. The product has at most 320 bits, so 512
bits are enough to compute it in: what is left of the quotient in 256 bits is the floor over
unbounded numbers, or the greatest number where that is larger.
-/

namespace HeaderSync.UInt256
variable {d : Nat}

def wideQuotient (value : UInt256) (factor divisor : UInt64) : BitVec 512 :=
  BitVec.ofNat 512 value.toNat * BitVec.ofNat 512 factor.toNat / BitVec.ofNat 512 divisor.toNat

/-- Scaling with the product in 512 bits; a quotient of more than 256 is the greatest number. -/
def mulDivWide (value : UInt256) (factor divisor : UInt64) : UInt256 :=
  if divisor = 0 then greatest
  else if h : (wideQuotient value factor divisor).toNat < 1 <<< 256 then ⟨_, h⟩
  else greatest

/-- Neither the operands nor the product lose a bit. -/
theorem toNat_wideQuotient (value : UInt256) (factor divisor : UInt64) :
    (wideQuotient value factor divisor).toNat =
      value.toNat * factor.toNat / divisor.toNat := by
  have hvalue := value.toNat_lt_two_pow
  have hfactor := factor.toNat_lt
  have hdivisor := divisor.toNat_lt
  have hproduct : value.toNat * factor.toNat < 2 ^ 256 * 2 ^ 64 :=
    Nat.mul_lt_mul'' hvalue hfactor
  simp only [wideQuotient, BitVec.toNat_udiv, BitVec.toNat_mul, BitVec.toNat_ofNat]
  rw [Nat.mod_eq_of_lt (a := value.toNat) (by omega), Nat.mod_eq_of_lt (a := factor.toNat) (by omega),
    Nat.mod_eq_of_lt (a := divisor.toNat) (by omega), Nat.mod_eq_of_lt (by omega)]

theorem mulDiv_eq_clamp (hd : d ≠ 0) (v : UInt256) (m : Nat) :
    v.mulDiv m d = clamp (v.toNat * m / d) := if_neg hd

theorem toNat_mulDiv (hd : d ≠ 0) (v : UInt256) (m : Nat) :
    (v.mulDiv m d).toNat = min (v.toNat * m / d) (2 ^ 256 - 1) := by
  rw [mulDiv_eq_clamp hd, toNat_clamp, Nat.one_shiftLeft]

/-- Scaling over unbounded numbers is scaling in 512 bits. -/
theorem mulDivWide_eq (value : UInt256) (factor divisor : UInt64) :
    value.mulDivWide factor divisor = value.mulDiv factor.toNat divisor.toNat := by
  unfold mulDivWide
  by_cases hzero : divisor = 0
  · subst hzero
    rfl
  · have hne : divisor.toNat ≠ 0 := fun h => hzero (UInt64.toNat_inj.mp h)
    have hquotient := toNat_wideQuotient value factor divisor
    rw [if_neg hzero, mulDiv_eq_clamp hne]
    apply ext
    split_ifs with hlt
    · rw [toNat_clamp]
      dsimp only
      omega
    · rw [toNat_clamp, toNat_greatest]
      omega

end HeaderSync.UInt256
