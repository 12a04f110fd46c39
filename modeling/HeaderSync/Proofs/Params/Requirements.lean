import HeaderSync.Params.Validity
import Mathlib.Tactic.Linarith

/-!
# What valid parameters satisfy

Parameters are valid exactly if they meet all the requirements. The window's timespan is then
positive and lies between its two bounds, neither of them negative, and the limit may be summed over
a window.
-/

namespace HeaderSync.Params

structure Requirements (p : Params) : Prop where
  powLimit_ne_zero : p.powLimit.toNat ≠ 0
  window_ne_zero : p.window ≠ 0
  window_le : p.window ≤ UInt256.greatest.toNat / p.powLimit.toNat
  targetSpacing_pos : 0 < p.targetSpacing.toInt
  legacySpacing_pos : 0 < p.legacySpacing.toInt
  legacySpacing_le : p.legacySpacing.toInt ≤ p.targetTimespan.toInt
  maxAdjustUp_nonneg : 0 ≤ p.maxAdjustUp.toInt
  maxAdjustUp_lt : p.maxAdjustUp.toInt < 100
  maxAdjustDown_nonneg : 0 ≤ p.maxAdjustDown.toInt
  eras_ne_nil : p.eras ≠ []
  eras_pos : ∀ e ∈ p.eras, 0 < e.minDivisor.toInt ∧ 0 < e.maxMultiplier.toInt

variable {p : Params}

theorem ite_flaw_eq_ok {c : Prop} [Decidable c] {flaw : Flaw} {rest : Except Flaw Unit} :
    (if c then .error flaw else rest) = .ok () ↔ ¬c ∧ rest = .ok () := by
  by_cases hc : c
  · simp [hc]
  · simp [hc]

theorem valid_iff : p.Valid ↔ p.Requirements := by
  have heras : (¬∃ e ∈ p.eras, e.minDivisor.toInt ≤ 0 ∨ e.maxMultiplier.toInt ≤ 0) ↔
      ∀ e ∈ p.eras, 0 < e.minDivisor.toInt ∧ 0 < e.maxMultiplier.toInt := by
    simp only [not_exists, not_and, not_or, Int.not_le]
  unfold Valid check
  simp only [ite_flaw_eq_ok, heras, not_or, not_not, Nat.not_lt, Int.not_le, Int.not_lt,
    List.isEmpty_iff, and_true]
  constructor
  · rintro ⟨hlimit, hwindow, hsum, ⟨htarget, hlegacy⟩, hshort, ⟨hup, hup'⟩, hdown, hne, hpos⟩
    exact ⟨hlimit, hwindow, hsum, htarget, hlegacy, hshort, hup, hup', hdown, hne, hpos⟩
  · rintro ⟨hlimit, hwindow, hsum, htarget, hlegacy, hshort, hup, hup', hdown, hne, hpos⟩
    exact ⟨hlimit, hwindow, hsum, ⟨htarget, hlegacy⟩, hshort, ⟨hup, hup'⟩, hdown, hne, hpos⟩

namespace Valid

/-- A whole window of targets at the limit has a sum of at most 256 bits. -/
theorem window_mul_powLimit_le (hp : p.Valid) :
    p.window * p.powLimit.toNat ≤ UInt256.greatest.toNat := by
  have hr := valid_iff.mp hp
  exact (Nat.le_div_iff_mul_le (Nat.pos_of_ne_zero hr.powLimit_ne_zero)).mp hr.window_le

theorem targetTimespan_pos (hp : p.Valid) : 0 < p.targetTimespan.toInt := by
  have hr := valid_iff.mp hp
  exact Int.lt_of_lt_of_le hr.legacySpacing_pos hr.legacySpacing_le

theorem max_one_targetTimespan (hp : p.Valid) :
    (max 1 p.targetTimespan.toInt).toNat = p.targetTimespan.toInt.toNat := by
  have := hp.targetTimespan_pos
  omega

theorem windowTimespan_pos (hp : p.Valid) : 0 < p.windowTimespan := by
  have hr := valid_iff.mp hp
  apply Int.mul_pos _ hr.targetSpacing_pos
  have := hr.window_ne_zero
  omega

theorem minWindowTimespan_le (hp : p.Valid) : p.minWindowTimespan ≤ p.windowTimespan := by
  have hup := (valid_iff.mp hp).maxAdjustUp_nonneg
  calc p.minWindowTimespan ≤ (p.windowTimespan * 100).tdiv 100 := by
        apply Int.tdiv_le_tdiv (by decide)
        exact Int.mul_le_mul_of_nonneg_left (by omega) (Int.le_of_lt hp.windowTimespan_pos)
    _ = p.windowTimespan := Int.mul_tdiv_cancel _ (by decide)

theorem le_maxWindowTimespan (hp : p.Valid) : p.windowTimespan ≤ p.maxWindowTimespan := by
  have hdown := (valid_iff.mp hp).maxAdjustDown_nonneg
  calc p.windowTimespan = (p.windowTimespan * 100).tdiv 100 :=
        (Int.mul_tdiv_cancel _ (by decide)).symm
    _ ≤ p.maxWindowTimespan := by
        apply Int.tdiv_le_tdiv (by decide)
        exact Int.mul_le_mul_of_nonneg_left (by omega) (Int.le_of_lt hp.windowTimespan_pos)

end Valid
end HeaderSync.Params
