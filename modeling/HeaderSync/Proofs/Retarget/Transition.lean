import HeaderSync.Proofs.Retarget.IntervalRule

/-!
# Permitted transitions

The bounds of a transition are what a quarter of the ideal timespan and four times the ideal one
make of a target, rounded as the interval rule rounds. So they permit whatever the rule makes of a
timespan in between: the answer of an era that is no wider, and the target itself.
-/

namespace HeaderSync.Retarget
variable {p : Params} {era : Era} {height span : Nat} {old new bits : Compact}
  {prior : List Sample} {last : Sample} {time : Int}

theorem permitted_of_lenient (lenient : p.allowMinDifficulty = true) (height : Nat)
    (old new : Compact) : permitted p height old new = true := by
  rw [permitted, if_pos lenient]

theorem permitted_self_of_inside (inside : height % p.interval ≠ 0) (bits : Compact) :
    permitted p height bits bits = true := by
  unfold permitted
  split_ifs
  · rfl
  · exact decide_eq_true rfl

/-- At the start of an interval, what a timespan between a quarter and four times the ideal one makes
of a target. -/
theorem permitted_of_scaledTarget (hp : p.Valid) (boundary : height % p.interval = 0)
    (hshort : p.targetTimespan.toInt.toNat / 4 ≤ span)
    (hlong : span ≤ 4 * p.targetTimespan.toInt.toNat) (hspan : span < 2 ^ 63)
    (hnew : new.target = scaledTarget p old span) : permitted p height old new = true := by
  have hold : old.target ≤ old.target := Nat.le_refl _
  unfold permitted
  rw [if_neg (not_not.mpr boundary), hnew, hp.max_one_targetTimespan]
  split_ifs
  · rfl
  · apply Bool.and_eq_true_iff.mpr
    constructor
    · exact decide_eq_true (scaledTarget_mono hp hold (by omega))
    · exact decide_eq_true (scaledTarget_mono hp hold hshort)

/-- The ideal timespan changes no target that keeps the limit. -/
theorem scaledTarget_self (hp : p.Valid) (hbits : bits.overflows = false)
    (hlimit : bits.target ≤ p.powLimit) :
    scaledTarget p bits p.targetTimespan.toInt.toNat = bits.target := by
  have hpos := hp.targetTimespan_pos
  have hsame : min (UInt256.clamp bits.target.toNat) p.powLimit = bits.target := by
    apply UInt256.ext
    rw [toNat_min_clamp]
    exact Nat.min_eq_left hlimit
  rw [scaledTarget_eq hp, Nat.mul_div_cancel _ (by omega), hsame, Compact.round_target hbits]

/-- Usable bits may stay as they are, at the start of an interval too. -/
theorem permitted_self (hp : p.Valid) (height : Nat) (hbits : bits.overflows = false)
    (hlimit : bits.target ≤ p.powLimit) : permitted p height bits bits = true := by
  have hlt := p.targetTimespan.toInt_lt
  by_cases hinside : height % p.interval ≠ 0
  · exact permitted_self_of_inside hinside bits
  · exact permitted_of_scaledTarget hp (not_not.mp hinside) (Nat.div_le_self _ 4) (by omega)
      (by omega) (scaledTarget_self hp hbits hlimit).symm

/-- What the rules demand up to the switch height, the bounds of a transition permit, as long as the
era at that height stays within a quarter and four times the ideal timespan. -/
theorem permitted_of_required (hp : p.Valid) (hlast : prior.getLast? = some last)
    (hswitch : last.height ≤ p.switchHeight.toNat) (hera : p.Governs (last.height + 1) era)
    (hdivisor : era.minDivisor.toInt ≤ 4) (hmultiplier : era.maxMultiplier.toInt ≤ 4)
    (hbits : required p prior time = .ok bits) :
    permitted p (last.height + 1) last.bits bits = true := by
  have hanswer : IntervalAnswer p prior last time bits := by
    apply answer_of_requiredByInterval
    rw [required, hlast] at hbits
    exact (if_pos hswitch).symm.trans hbits
  cases hanswer with
  | kept inside => exact permitted_self_of_inside inside last.bits
  | late _ lenient => exact permitted_of_lenient lenient _ _ _
  | settled _ lenient => exact permitted_of_lenient lenient _ _ _
  | @scaled boundary first later =>
    have hpos := ((Params.valid_iff.mp hp).eras_pos era hera.mem).1
    have hshort := div_minDivisor_le_observedTimespan hp hera first.time
    have hlong := observedTimespan_le_mul_maxMultiplier hp hera first.time
    have hlt := observedTimespan_lt hp last first.time
    apply permitted_of_scaledTarget hp boundary _ _ _ (target_intervalBits hp last first.time)
    · apply Nat.le_trans (Nat.div_le_div_left _ _) hshort <;> omega
    · apply Nat.le_trans hlong
      rw [Nat.mul_comm]
      exact Nat.mul_le_mul_right _ (by omega)
    · omega

/-- The end of an interval that took no time, in an era of four. -/
theorem permitted_of_required_quarter :
    let p : Params := { Params.main with targetTimespan := 240, eras := [⟨0, 4, 4⟩] }
    let era : Era := ⟨0, 4, 4⟩
    let prior : List Sample := [3, 4, 5, 6, 7].map fun height => ⟨height, 60, ⟨0x1c7fffff⟩, 60⟩
    let last : Sample := ⟨7, 60, ⟨0x1c7fffff⟩, 60⟩
    p.Valid ∧ prior.getLast? = some last ∧ last.height ≤ p.switchHeight.toNat ∧
      p.Governs (last.height + 1) era ∧ era.minDivisor.toInt ≤ 4 ∧ era.maxMultiplier.toInt ≤ 4 ∧
      required p prior 120 = .ok ⟨0x1c1fffff⟩ ∧
      permitted p (last.height + 1) last.bits ⟨0x1c1fffff⟩ = true := by
  intro p era prior last
  have hp : p.Valid := by decide +kernel
  have hera : p.Governs (last.height + 1) era := .inl ⟨[], [], rfl, by decide, by simp⟩
  have hbits : required p prior 120 = .ok ⟨0x1c1fffff⟩ := by decide +kernel
  exact ⟨hp, rfl, by decide, hera, by decide, by decide, hbits,
    permitted_of_required hp rfl (by decide) hera (by decide) (by decide) hbits⟩

end HeaderSync.Retarget
