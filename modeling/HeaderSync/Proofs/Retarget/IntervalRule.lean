import HeaderSync.Params.Preset
import HeaderSync.Proofs.Params.Eras
import HeaderSync.Proofs.Retarget.WindowRule
import HeaderSync.Proofs.UInt256.Scaled

/-!
# The answers of the interval rule

Once per interval the rule scales the last target by the time that the interval took, held between
the bounds of an era. The product never loses a bit. Every step keeps the order, so the answer lies
between what the two bounds make of the target, and it rises with the target and the time taken.
-/

namespace HeaderSync.Retarget
variable {p : Params} {era : Era} {height span span' : Nat} {old old' bits : Compact}
  {prior : List Sample} {last last' : Sample} {time firstTime firstTime' : Int}

/-! ### The ways to an answer -/

inductive IntervalAnswer (p : Params) (prior : List Sample) (last : Sample) (time : Int) :
    Compact → Prop
  | kept (inside : (last.height + 1) % p.interval ≠ 0) (strict : p.allowMinDifficulty = false) :
      IntervalAnswer p prior last time last.bits
  | late (inside : (last.height + 1) % p.interval ≠ 0) (lenient : p.allowMinDifficulty = true)
      (gap : isLate p intervalGap last.time time = true) :
      IntervalAnswer p prior last time p.limitBits
  | settled {bits : Compact} (inside : (last.height + 1) % p.interval ≠ 0)
      (lenient : p.allowMinDifficulty = true) (gap : isLate p intervalGap last.time time = false)
      (search : settledBits p last prior.dropLast.reverse = .ok bits) :
      IntervalAnswer p prior last time bits
  | scaled (boundary : (last.height + 1) % p.interval = 0) {first : Sample} {later : List Sample}
      (found : splitAt? prior (last.height -
        if last.height + 1 = p.interval then p.interval - 1 else p.interval) = some (first, later)) :
      IntervalAnswer p prior last time (intervalBits p last first.time)

theorem answer_of_requiredByInterval (h : requiredByInterval p prior last time = .ok bits) :
    IntervalAnswer p prior last time bits := by
  unfold requiredByInterval at h
  by_cases hinside : (last.height + 1) % p.interval ≠ 0
  · rw [if_pos hinside] at h
    by_cases hlenient : p.allowMinDifficulty = true
    · rw [hlenient, Bool.not_true, if_neg Bool.false_ne_true] at h
      by_cases hgap : isLate p intervalGap last.time time = true
      · rw [if_pos hgap] at h
        exact Except.ok.inj h ▸ .late hinside hlenient hgap
      · rw [if_neg hgap] at h
        exact .settled hinside hlenient (Bool.eq_false_iff.mpr hgap) h
    · have hstrict : p.allowMinDifficulty = false := Bool.eq_false_iff.mpr hlenient
      rw [hstrict, Bool.not_false, if_pos rfl] at h
      exact Except.ok.inj h ▸ .kept hinside hstrict
  · rw [if_neg hinside] at h
    dsimp only at h
    cases hsplit : splitAt? prior (last.height -
        if last.height + 1 = p.interval then p.interval - 1 else p.interval) with
    | none => simp [hsplit] at h
    | some found =>
      rw [hsplit] at h
      exact Except.ok.inj h ▸ .scaled (not_not.mp hinside) hsplit

/-! ### Scaled targets -/

theorem scaledTarget_eq (hp : p.Valid) (old : Compact) (span : Nat) : scaledTarget p old span =
    Compact.round (min (.clamp (old.target.toNat * span / p.targetTimespan.toInt.toNat))
      p.powLimit) := by
  have hpos := hp.targetTimespan_pos
  rw [scaledTarget, hp.max_one_targetTimespan, UInt256.mulDiv_eq_clamp (by omega)]

theorem scaledTarget_mono (hp : p.Valid) (hold : old.target ≤ old'.target) (hspan : span ≤ span') :
    scaledTarget p old span ≤ scaledTarget p old' span' := by
  have hscaled : old.target.toNat * span / p.targetTimespan.toInt.toNat ≤
      old'.target.toNat * span' / p.targetTimespan.toInt.toNat :=
    Nat.div_le_div_right (Nat.mul_le_mul hold hspan)
  rw [scaledTarget_eq hp, scaledTarget_eq hp]
  apply Compact.round_mono
  rw [UInt256.le_iff, toNat_min_clamp, toNat_min_clamp]
  omega

theorem toNat_scaledTarget_le (hp : p.Valid) (old : Compact) (span : Nat) :
    (scaledTarget p old span).toNat ≤
      min (old.target.toNat * span / p.targetTimespan.toInt.toNat) p.powLimit.toNat := by
  rw [scaledTarget_eq hp, ← toNat_min_clamp]
  exact Compact.round_le _

/-! ### The timespan -/

def observedTimespan (p : Params) (last : Sample) (firstTime : Int) : Int :=
  min (p.legacyBounds (last.height + 1)).2
    (max (p.legacyBounds (last.height + 1)).1 (clampSeconds (last.time - firstTime)))

theorem le_observedTimespan (hp : p.Valid) (last : Sample) (firstTime : Int) :
    (p.legacyBounds (last.height + 1)).1 ≤ observedTimespan p last firstTime := by
  have hlow := hp.legacyBounds_fst_le (last.height + 1)
  have hhigh := hp.le_legacyBounds_snd (last.height + 1)
  unfold observedTimespan
  omega

theorem observedTimespan_le (p : Params) (last : Sample) (firstTime : Int) :
    observedTimespan p last firstTime ≤ (p.legacyBounds (last.height + 1)).2 := Int.min_le_left _ _

theorem observedTimespan_lt (hp : p.Valid) (last : Sample) (firstTime : Int) :
    observedTimespan p last firstTime < 2 ^ 63 := by
  obtain ⟨era, h⟩ := hp.exists_governs (last.height + 1)
  have hle := observedTimespan_le p last firstTime
  rw [hp.legacyBounds_snd h] at hle
  omega

theorem observedTimespan_mono (p : Params) (hheight : last'.height = last.height)
    (hlast : last.time ≤ last'.time) (hfirst : firstTime' ≤ firstTime) :
    observedTimespan p last firstTime ≤ observedTimespan p last' firstTime' := by
  have hspan : clampSeconds (last.time - firstTime) ≤ clampSeconds (last'.time - firstTime') :=
    clampSeconds_mono (by omega)
  unfold observedTimespan
  rw [hheight]
  omega

/-- The bounds are in order, so holding the timespan to them one after the other is no choice. -/
theorem intervalBits_eq (hp : p.Valid) (last : Sample) (firstTime : Int) :
    intervalBits p last firstTime =
      .ofTarget (min (last.bits.target.mulDiv (observedTimespan p last firstTime).toNat
        p.targetTimespan.toInt.toNat) p.powLimit) := by
  have hlow := hp.legacyBounds_fst_le (last.height + 1)
  have hhigh := hp.le_legacyBounds_snd (last.height + 1)
  unfold intervalBits observedTimespan
  dsimp only
  rw [hp.max_one_targetTimespan]
  congr 4
  split_ifs <;> omega

theorem target_intervalBits (hp : p.Valid) (last : Sample) (firstTime : Int) :
    (intervalBits p last firstTime).target =
      scaledTarget p last.bits (observedTimespan p last firstTime).toNat := by
  rw [intervalBits_eq hp, scaledTarget, hp.max_one_targetTimespan]
  rfl

theorem div_minDivisor_le_observedTimespan (hp : p.Valid) (h : p.Governs (last.height + 1) era)
    (firstTime : Int) : p.targetTimespan.toInt.toNat / era.minDivisor.toInt.toNat ≤
      (observedTimespan p last firstTime).toNat := by
  have hle := le_observedTimespan hp last firstTime
  rw [hp.legacyBounds_fst h] at hle
  omega

theorem observedTimespan_le_mul_maxMultiplier (hp : p.Valid) (h : p.Governs (last.height + 1) era)
    (firstTime : Int) : (observedTimespan p last firstTime).toNat ≤
      p.targetTimespan.toInt.toNat * era.maxMultiplier.toInt.toNat := by
  have hle := observedTimespan_le p last firstTime
  have hpos := hp.targetTimespan_pos
  have hmultiplier := ((Params.valid_iff.mp hp).eras_pos era h.mem).2
  rw [hp.legacyBounds_snd h] at hle
  rw [← Int.toNat_mul (by omega) (by omega)]
  omega

/-! ### The answer -/

structure WithinEra (p : Params) (era : Era) (target : UInt256) (c : Compact) : Prop where
  not_negative : c.isNegative = false
  not_overflows : c.overflows = false
  le_powLimit : c.target ≤ p.powLimit
  le_multiple : c.target.toNat ≤ target.toNat * era.maxMultiplier.toInt.toNat
  part_le : ∃ part : UInt256,
    part.toNat = min p.powLimit.toNat
      (target.toNat * (p.targetTimespan.toInt.toNat / era.minDivisor.toInt.toNat) /
        p.targetTimespan.toInt.toNat) ∧
      Compact.round part ≤ c.target

theorem withinEra_intervalBits (hp : p.Valid) (h : p.Governs (last.height + 1) era)
    (firstTime : Int) : WithinEra p era last.bits.target (intervalBits p last firstTime) := by
  have hpos := hp.targetTimespan_pos
  have hle := toNat_scaledTarget_le hp last.bits (observedTimespan p last firstTime).toNat
  refine ⟨?_, ?_, ?_, ?_, ?_⟩
  · rw [intervalBits_eq hp]
    exact Compact.isNegative_ofTarget _
  · rw [intervalBits_eq hp]
    exact Compact.overflows_ofTarget _
  · rw [target_intervalBits hp, UInt256.le_iff]
    omega
  · rw [target_intervalBits hp]
    apply Nat.le_trans (Nat.le_trans hle (Nat.min_le_left _ _))
    apply Nat.div_le_of_le_mul
    rw [Nat.mul_left_comm]
    exact Nat.mul_le_mul_left _ (observedTimespan_le_mul_maxMultiplier hp h firstTime)
  · have hpart := scaledTarget_mono hp (Nat.le_refl last.bits.target.toNat)
      (div_minDivisor_le_observedTimespan hp h firstTime)
    rw [scaledTarget_eq hp] at hpart
    refine ⟨_, ?_, target_intervalBits hp last firstTime ▸ hpart⟩
    rw [toNat_min_clamp, Nat.min_comm]

/-- The two factors of the product have 64 bits, so the rule can do without unbounded numbers. -/
theorem exists_intervalBits_eq (hp : p.Valid) (last : Sample) (firstTime : Int) :
    ∃ factor divisor : UInt64, factor.toNat = observedTimespan p last firstTime ∧
      divisor.toNat = p.targetTimespan.toInt ∧ intervalBits p last firstTime =
        .ofTarget (min (last.bits.target.mulDivWide factor divisor) p.powLimit) := by
  have hpos := hp.targetTimespan_pos
  have hlow := hp.legacyBounds_fst_nonneg (last.height + 1)
  have hle := le_observedTimespan hp last firstTime
  have hword {n : Int} (hn : 0 ≤ n) (hlt : n < 2 ^ 63) : ∃ word : UInt64, word.toNat = n := by
    have hsize : n.toNat < UInt64.size := by
      rw [UInt64.size]
      omega
    exact ⟨.ofNat n.toNat, by rw [UInt64.toNat_ofNat_of_lt' hsize, Int.toNat_of_nonneg hn]⟩
  obtain ⟨factor, hfactor⟩ := hword (Int.le_trans hlow hle) (observedTimespan_lt hp last firstTime)
  obtain ⟨divisor, hdivisor⟩ := hword (Int.le_of_lt hpos) p.targetTimespan.toInt_lt
  refine ⟨factor, divisor, hfactor, hdivisor, ?_⟩
  rw [intervalBits_eq hp, UInt256.mulDivWide_eq, ← hfactor, ← hdivisor, Int.toNat_natCast,
    Int.toNat_natCast]

/-- Scaling is the floor over unbounded numbers, and 512 bits are enough for the product. The bounds
of the timespan lie around the ideal one. The answer has no sign, does not overflow and lies, within
the limit, between what the height's era lets the timespan make of the last target. It does not fall
when the target or the last time rises or the first time falls. -/
theorem interval_rule_exact (hp : p.Valid) (last : Sample) (firstTime : Int) :
    (∀ (value : UInt256) (factor divisor : UInt64), divisor ≠ 0 →
      (value.mulDiv factor.toNat divisor.toNat).toNat =
        min (value.toNat * factor.toNat / divisor.toNat) (2 ^ 256 - 1) ∧
      value.mulDivWide factor divisor = value.mulDiv factor.toNat divisor.toNat) ∧
      (0 ≤ (p.legacyBounds (last.height + 1)).1 ∧
        (p.legacyBounds (last.height + 1)).1 ≤ p.targetTimespan.toInt ∧
        p.targetTimespan.toInt ≤ (p.legacyBounds (last.height + 1)).2) ∧
      (∃ factor divisor : UInt64, factor.toNat = observedTimespan p last firstTime ∧
        divisor.toNat = p.targetTimespan.toInt ∧ intervalBits p last firstTime =
          .ofTarget (min (last.bits.target.mulDivWide factor divisor) p.powLimit)) ∧
      (∃ era, (∀ other, p.Governs (last.height + 1) other ↔ other = era) ∧
        WithinEra p era last.bits.target (intervalBits p last firstTime)) ∧
      ∀ (last' : Sample) (firstTime' : Int), last'.height = last.height →
        last.bits.target ≤ last'.bits.target → last.time ≤ last'.time → firstTime' ≤ firstTime →
        (intervalBits p last firstTime).target ≤ (intervalBits p last' firstTime').target := by
  obtain ⟨era, h⟩ := hp.exists_governs (last.height + 1)
  refine ⟨?_, ⟨hp.legacyBounds_fst_nonneg _, hp.legacyBounds_fst_le _, hp.le_legacyBounds_snd _⟩,
    exists_intervalBits_eq hp last firstTime,
    ⟨era, h.iff_eq, withinEra_intervalBits hp h firstTime⟩, ?_⟩
  · intro value factor divisor hne
    have hne' : divisor.toNat ≠ 0 := fun hzero => hne (UInt64.toNat_inj.mp hzero)
    exact ⟨UInt256.toNat_mulDiv hne' value _, UInt256.mulDivWide_eq value factor divisor⟩
  · intro last' firstTime' hheight htarget hlast hfirst
    rw [target_intervalBits hp, target_intervalBits hp]
    apply scaledTarget_mono hp htarget
    exact Int.toNat_le_toNat (observedTimespan_mono p hheight hlast hfirst)

/-- An interval that took no time at all, in the early era. -/
theorem interval_rule_exact_main :
    let p := Params.main
    let last : Sample := ⟨479, 1600000000, ⟨0x1c03fc00⟩, 1600000000⟩
    p.Valid ∧ intervalBits p last 1600000000 = ⟨0x1b3fc000⟩ ∧
      (p.legacyBounds 480).1 ≤ p.targetTimespan.toInt ∧
      ∃ era, (∀ other, p.Governs 480 other ↔ other = era) ∧
        WithinEra p era last.bits.target (intervalBits p last 1600000000) := by
  intro p last
  have hp : p.Valid := by decide +kernel
  have hbits : intervalBits p last 1600000000 = ⟨0x1b3fc000⟩ := by decide +kernel
  obtain ⟨-, ⟨-, hlow, -⟩, -, hera, -⟩ := interval_rule_exact hp last 1600000000
  exact ⟨hp, hbits, hlow, hera⟩

end HeaderSync.Retarget
