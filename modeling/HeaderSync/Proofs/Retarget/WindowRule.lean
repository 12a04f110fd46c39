import HeaderSync.Params.Preset
import HeaderSync.Proofs.Compact.Rounding
import HeaderSync.Proofs.Params.Requirements
import HeaderSync.Proofs.Retarget.Samples
import HeaderSync.Proofs.Window.Recent
import Mathlib.Algebra.Order.BigOperators.Group.List

/-!
# The answers of the window rule

The rule averages the targets of a window and scales the mean by a timespan that is held between
two bounds. The sum of the targets never saturates if they keep the limit, so the mean is exact.
Each step from the targets and the two median times to the answer keeps the order, and the bounds
of the timespan bound the answer.
-/

namespace HeaderSync

theorem clampSeconds_mono {m n : Int} (h : m ≤ n) : clampSeconds m ≤ clampSeconds n := by
  unfold clampSeconds
  omega

namespace Retarget
variable {p : Params} {bits bits' : List Compact} {mean mean' : UInt256}
  {lastMedian lastMedian' firstMedian firstMedian' : Int}

/-! ### The mean -/

theorem meanTarget_eq (hp : p.Valid) (bits : List Compact) : meanTarget p.window bits =
    .ok ((UInt256.sum (bits.map Compact.target)).divNat p.window) :=
  if_neg hp.window_ne_zero

theorem toNat_mean (hp : p.Valid) (hmean : meanTarget p.window bits = .ok mean) :
    mean.toNat = min (bits.map (·.target.toNat)).sum ((1 <<< 256) - 1) / p.window := by
  rw [meanTarget_eq hp] at hmean
  rw [← Except.ok.inj hmean, UInt256.toNat_divNat, UInt256.toNat_sum, List.map_map]
  rfl

theorem sum_targets_le (hlength : bits.length ≤ p.window)
    (hbits : ∀ b ∈ bits, b.target ≤ p.powLimit) :
    (bits.map (·.target.toNat)).sum ≤ p.window * p.powLimit.toNat := by
  calc (bits.map (·.target.toNat)).sum
      ≤ (bits.map (·.target.toNat)).length • p.powLimit.toNat := by
        apply List.sum_le_card_nsmul
        intro t ht
        obtain ⟨b, hb, rfl⟩ := List.mem_map.mp ht
        exact hbits b hb
    _ ≤ p.window * p.powLimit.toNat := by
        rw [List.length_map]
        exact Nat.mul_le_mul_right _ hlength

/-- Targets within the limit can be summed over a window, in 256 bits. -/
theorem toNat_sum_targets (hp : p.Valid) (hlength : bits.length ≤ p.window)
    (hbits : ∀ b ∈ bits, b.target ≤ p.powLimit) :
    (UInt256.sum (bits.map Compact.target)).toNat = (bits.map (·.target.toNat)).sum := by
  have hle := Nat.le_trans (sum_targets_le hlength hbits) hp.window_mul_powLimit_le
  rw [UInt256.toNat_sum, List.map_map]
  exact Nat.min_eq_left hle

theorem mean_le_powLimit (hp : p.Valid) (hlength : bits.length ≤ p.window)
    (hbits : ∀ b ∈ bits, b.target ≤ p.powLimit) (hmean : meanTarget p.window bits = .ok mean) :
    mean ≤ p.powLimit := by
  rw [UInt256.le_iff, toNat_mean hp hmean]
  apply Nat.div_le_of_le_mul
  exact Nat.le_trans (Nat.min_le_left _ _) (sum_targets_le hlength hbits)

/-- A common lower bound of the targets, itself within the limit, is one of the mean. -/
theorem le_mean (hp : p.Valid) {least : UInt256} (hlength : p.window ≤ bits.length)
    (hlimit : least ≤ p.powLimit) (hbits : ∀ b ∈ bits, least ≤ b.target)
    (hmean : meanTarget p.window bits = .ok mean) : least ≤ mean := by
  have hsum : p.window * least.toNat ≤ (bits.map (·.target.toNat)).sum := by
    calc p.window * least.toNat ≤ (bits.map (·.target.toNat)).length • least.toNat := by
          rw [List.length_map]
          exact Nat.mul_le_mul_right _ hlength
      _ ≤ (bits.map (·.target.toNat)).sum := by
          apply List.card_nsmul_le_sum
          intro t ht
          obtain ⟨b, hb, rfl⟩ := List.mem_map.mp ht
          exact hbits b hb
  have hfits : p.window * least.toNat ≤ (1 <<< 256) - 1 :=
    Nat.le_trans (Nat.mul_le_mul_left _ hlimit) hp.window_mul_powLimit_le
  rw [UInt256.le_iff, toNat_mean hp hmean,
    Nat.le_div_iff_mul_le (Nat.pos_of_ne_zero hp.window_ne_zero), Nat.mul_comm]
  exact Nat.le_min.mpr ⟨hsum, hfits⟩

theorem mean_mono (hp : p.Valid) (h : List.Forall₂ (fun b b' => b.target ≤ b'.target) bits bits')
    (hmean : meanTarget p.window bits = .ok mean)
    (hmean' : meanTarget p.window bits' = .ok mean') : mean ≤ mean' := by
  have hsum : (bits.map (·.target.toNat)).sum ≤ (bits'.map (·.target.toNat)).sum := by
    apply List.Forall₂.sum_le_sum
    rw [List.forall₂_map_left_iff, List.forall₂_map_right_iff]
    exact h
  rw [UInt256.le_iff, toNat_mean hp hmean, toNat_mean hp hmean']
  exact Nat.div_le_div_right (by omega)

/-! ### The timespan -/

def heldTimespan (p : Params) (lastMedian firstMedian : Int) : Int :=
  min p.maxWindowTimespan (max p.minWindowTimespan
    (p.windowTimespan + (clampSeconds (lastMedian - firstMedian) - p.windowTimespan).tdiv 4))

theorem heldTimespan_le (p : Params) (lastMedian firstMedian : Int) :
    heldTimespan p lastMedian firstMedian ≤ p.maxWindowTimespan := Int.min_le_left _ _

theorem le_heldTimespan (hp : p.Valid) (lastMedian firstMedian : Int) :
    p.minWindowTimespan ≤ heldTimespan p lastMedian firstMedian := by
  have hmin := hp.minWindowTimespan_le
  have hmax := hp.le_maxWindowTimespan
  unfold heldTimespan
  omega

theorem heldTimespan_mono (p : Params) (hlast : lastMedian ≤ lastMedian')
    (hfirst : firstMedian' ≤ firstMedian) :
    heldTimespan p lastMedian firstMedian ≤ heldTimespan p lastMedian' firstMedian' := by
  have hspan : clampSeconds (lastMedian - firstMedian) ≤
      clampSeconds (lastMedian' - firstMedian') := clampSeconds_mono (by omega)
  have hdamped := Int.tdiv_le_tdiv (c := 4) (by decide) (Int.sub_le_sub_right hspan p.windowTimespan)
  unfold heldTimespan
  omega

/-! ### The answer -/

def scaledMean (p : Params) (mean : UInt256) (lastMedian firstMedian : Int) : Nat :=
  mean.toNat / p.windowTimespan.toNat * (heldTimespan p lastMedian firstMedian).toNat

theorem windowBits_eq (hp : p.Valid) (mean : UInt256) (lastMedian firstMedian : Int) :
    windowBits p mean lastMedian firstMedian =
      .ofTarget (min (.clamp (scaledMean p mean lastMedian firstMedian)) p.powLimit) :=
  if_neg (Int.not_le.mpr hp.windowTimespan_pos)

theorem toNat_min_clamp (n : Nat) (limit : UInt256) :
    (min (UInt256.clamp n) limit).toNat = min n limit.toNat := by
  have := limit.toNat_le
  rw [UInt256.toNat_min, UInt256.toNat_clamp]
  omega

theorem scaledMean_mono (hmean : mean ≤ mean') (hlast : lastMedian ≤ lastMedian')
    (hfirst : firstMedian' ≤ firstMedian) : scaledMean p mean lastMedian firstMedian ≤
      scaledMean p mean' lastMedian' firstMedian' :=
  Nat.mul_le_mul (Nat.div_le_div_right hmean) (Int.toNat_le_toNat (heldTimespan_mono p hlast hfirst))

theorem windowBits_mono (hp : p.Valid) (hmean : mean ≤ mean') (hlast : lastMedian ≤ lastMedian')
    (hfirst : firstMedian' ≤ firstMedian) : (windowBits p mean lastMedian firstMedian).target ≤
      (windowBits p mean' lastMedian' firstMedian').target := by
  rw [windowBits_eq hp, windowBits_eq hp]
  apply Compact.round_mono
  rw [UInt256.le_iff, toNat_min_clamp, toNat_min_clamp]
  have := scaledMean_mono (p := p) hmean hlast hfirst
  omega

/-- The least that the rule can make of a target is no more than the target. -/
theorem div_mul_minWindowTimespan_le (hp : p.Valid) (n : Nat) :
    n / p.windowTimespan.toNat * p.minWindowTimespan.toNat ≤ n := by
  calc n / p.windowTimespan.toNat * p.minWindowTimespan.toNat
      ≤ n / p.windowTimespan.toNat * p.windowTimespan.toNat :=
        Nat.mul_le_mul_left _ (Int.toNat_le_toNat hp.minWindowTimespan_le)
    _ ≤ n := Nat.div_mul_le_self _ _

/-- What the least timespan makes of a target. -/
theorem exists_damped (hp : p.Valid) (t : UInt256) : ∃ damped : UInt256,
    damped.toNat = t.toNat / p.windowTimespan.toNat * p.minWindowTimespan.toNat ∧ damped ≤ t :=
  have hle := div_mul_minWindowTimespan_le hp t.toNat
  ⟨⟨_, Nat.lt_of_le_of_lt hle t.toNat_lt⟩, rfl, hle⟩

/-- The answer is at least what the least timespan makes of any target up to the mean and the
limit. -/
theorem round_le_windowBits (hp : p.Valid) {least damped : UInt256} (hmean : least ≤ mean)
    (hlimit : least ≤ p.powLimit)
    (hdamped : damped.toNat =
      least.toNat / p.windowTimespan.toNat * p.minWindowTimespan.toNat)
    (lastMedian firstMedian : Int) :
    Compact.round damped ≤ (windowBits p mean lastMedian firstMedian).target := by
  rw [windowBits_eq hp]
  apply Compact.round_mono
  rw [UInt256.le_iff, toNat_min_clamp, hdamped]
  apply Nat.le_min.mpr
  constructor
  · apply Nat.mul_le_mul (Nat.div_le_div_right hmean)
    exact Int.toNat_le_toNat (le_heldTimespan hp lastMedian firstMedian)
  · exact Nat.le_trans (div_mul_minWindowTimespan_le hp _) hlimit

structure Bounded (p : Params) (mean : UInt256) (c : Compact) : Prop where
  not_negative : c.isNegative = false
  not_overflows : c.overflows = false
  le_powLimit : c.target ≤ p.powLimit
  le_greatest : c.target.toNat ≤
    mean.toNat / p.windowTimespan.toNat * p.maxWindowTimespan.toNat
  least_le : ∃ damped : UInt256,
    damped.toNat = mean.toNat / p.windowTimespan.toNat * p.minWindowTimespan.toNat ∧
      Compact.round damped ≤ c.target
  isValid : p.windowTimespan.toNat ≤ mean.toNat → 1 ≤ p.minWindowTimespan → c.isValid = true

theorem bounded_windowBits (hp : p.Valid) (hmean : mean ≤ p.powLimit)
    (lastMedian firstMedian : Int) :
    Bounded p mean (windowBits p mean lastMedian firstMedian) := by
  have hround : (windowBits p mean lastMedian firstMedian).target.toNat ≤
      min (scaledMean p mean lastMedian firstMedian) p.powLimit.toNat := by
    rw [windowBits_eq hp, ← toNat_min_clamp]
    exact Compact.round_le _
  obtain ⟨damped, hdamped, -⟩ := exists_damped hp mean
  have hleast : Compact.round damped ≤ (windowBits p mean lastMedian firstMedian).target :=
    round_le_windowBits hp (Nat.le_refl _) hmean hdamped lastMedian firstMedian
  have hnegative : (windowBits p mean lastMedian firstMedian).isNegative = false := by
    rw [windowBits_eq hp]
    exact Compact.isNegative_ofTarget _
  have hoverflows : (windowBits p mean lastMedian firstMedian).overflows = false := by
    rw [windowBits_eq hp]
    exact Compact.overflows_ofTarget _
  refine ⟨hnegative, hoverflows, ?_, ?_, ⟨damped, hdamped, hleast⟩, ?_⟩
  · rw [UInt256.le_iff]
    omega
  · have hscaled : scaledMean p mean lastMedian firstMedian ≤
        mean.toNat / p.windowTimespan.toNat * p.maxWindowTimespan.toNat :=
      Nat.mul_le_mul_left _ (Int.toNat_le_toNat (heldTimespan_le p lastMedian firstMedian))
    omega
  · intro hwide hshort
    have hpos : 0 < damped.toNat := by
      rw [hdamped]
      apply Nat.mul_pos
      · exact Nat.div_pos hwide (Int.pos_iff_toNat_pos.mp hp.windowTimespan_pos)
      · omega
    have hround := Compact.round_pos hpos
    rw [UInt256.le_iff] at hleast
    have hne : (windowBits p mean lastMedian firstMedian).target ≠ 0 := by
      intro hzero
      rw [hzero, UInt256.toNat_zero] at hleast
      omega
    simp [Compact.isValid, hnegative, hoverflows, hne]

/-- A warm window expects the answer for its own targets and its newest and oldest median times. -/
theorem expected_eq {w : Window} (hw : w.isWarm p = true)
    (hmean : meanTarget p.window w.bits = .ok mean) : w.expected p =
      .ok (some (windowBits p mean (w.medians.headD 0) (w.medians.getLastD 0))) := by
  rw [Window.expected_of_isWarm p hw, hmean]
  rfl

/-- Over a window of targets within the limit no part of the sum saturates, so both the index and a
candidate chain scale the exact floor of the mean. The answer has no sign, does not overflow and is
within the limit and the bounds of the timespan, and it is a usable target if the mean has a unit
for each second and the least timespan a second. It does not fall when targets or the last median
time rise or the first one falls. -/
theorem window_rule_exact (hp : p.Valid) (hlength : bits.length = p.window)
    (hbits : ∀ b ∈ bits, b.target ≤ p.powLimit) :
    (∀ part : List Compact, part.Sublist bits →
      (UInt256.sum (part.map Compact.target)).toNat = (part.map (·.target.toNat)).sum) ∧
      ∃ mean : UInt256, meanTarget p.window bits = .ok mean ∧
        mean.toNat = (bits.map (·.target.toNat)).sum / p.window ∧
        (∀ (prior later : List Sample) (last first : Sample) (time : Int),
          prior.getLast? = some last → p.switchHeight.toNat < last.height →
          p.noRetargeting = false →
          (p.minDifficultyAfter last.height && isLate p windowGap last.time time) = false →
          p.window ≤ last.height →
          splitAt? prior (last.height - p.window) = some (first, later) →
          later.map Sample.bits = bits →
          required p prior time = .ok (windowBits p mean last.medianTime first.medianTime)) ∧
        (∀ w : Window, w.isWarm p = true → w.bits = bits → w.expected p =
          .ok (some (windowBits p mean (w.medians.headD 0) (w.medians.getLastD 0)))) ∧
        (∀ lastMedian firstMedian,
          Bounded p mean (windowBits p mean lastMedian firstMedian)) ∧
        ∀ (bits' : List Compact) (mean' : UInt256)
          (lastMedian lastMedian' firstMedian firstMedian' : Int),
          List.Forall₂ (fun b b' => b.target ≤ b'.target) bits bits' →
          meanTarget p.window bits' = .ok mean' → lastMedian ≤ lastMedian' →
          firstMedian' ≤ firstMedian → (windowBits p mean lastMedian firstMedian).target ≤
            (windowBits p mean' lastMedian' firstMedian').target := by
  have hpart {part : List Compact} (hsub : part.Sublist bits) :
      (UInt256.sum (part.map Compact.target)).toNat = (part.map (·.target.toNat)).sum := by
    apply toNat_sum_targets hp
    · exact Nat.le_trans hsub.length_le (Nat.le_of_eq hlength)
    · exact fun b hb => hbits b (hsub.subset hb)
  refine ⟨fun part hsub => hpart hsub, _, meanTarget_eq hp bits, ?_, ?_, ?_, ?_, ?_⟩
  · rw [UInt256.toNat_divNat, hpart (List.Sublist.refl bits)]
  · intro prior later last first time hlast hswitch hretarget hgap hwarm hsplit hlater
    rw [required_of_splitAt? hlast hswitch hretarget hgap hwarm hsplit, hlater, meanTarget_eq hp]
    rfl
  · intro w hw hwbits
    exact expected_eq hw (hwbits ▸ meanTarget_eq hp bits)
  · intro lastMedian firstMedian
    apply bounded_windowBits hp
    exact mean_le_powLimit hp (Nat.le_of_eq hlength) hbits (meanTarget_eq hp bits)
  · intro bits' mean' lastMedian lastMedian' firstMedian firstMedian' hrise hmean' hlast hfirst
    exact windowBits_mono hp (mean_mono hp hrise (meanTarget_eq hp bits) hmean') hlast hfirst

/-- The network's limit, sixteen times, and a target a few thousand times harder. -/
theorem window_rule_exact_main :
    let p := Params.main
    let bits : List Compact := ⟨0x1d00ffff⟩ :: List.replicate 16 ⟨0x1e0fffff⟩
    p.Valid ∧ bits.length = p.window ∧ (∀ b ∈ bits, b.target ≤ p.powLimit) ∧
      ∃ mean : UInt256, meanTarget p.window bits = .ok mean ∧
        mean.toNat = (bits.map (·.target.toNat)).sum / p.window ∧
        ∀ lastMedian firstMedian,
          Bounded p mean (windowBits p mean lastMedian firstMedian) := by
  intro p bits
  have hp : p.Valid := by decide +kernel
  have hbits : ∀ b ∈ bits, b.target ≤ p.powLimit := by decide +kernel
  obtain ⟨-, mean, hmean, hexact, -, -, hbounded, -⟩ := window_rule_exact hp rfl hbits
  exact ⟨hp, rfl, hbits, mean, hmean, hexact, hbounded⟩

end Retarget
end HeaderSync
