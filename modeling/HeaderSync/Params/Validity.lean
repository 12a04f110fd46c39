import HeaderSync.Params

/-!
# Parameters that the rules can work with

`Params.check` names the first requirement that a set of parameters misses, in a fixed order.
-/

namespace HeaderSync.Params

inductive Flaw where
  | zeroLimit
  | emptyWindow
  | windowSumOverflow
  | nonPositiveSpacing
  | shortTimespan
  | adjustUpOutOfRange
  | negativeAdjustDown
  | noEras
  | nonPositiveEra
deriving DecidableEq

def Flaw.requirement : Flaw → String
  | .zeroLimit => "pow_limit must be > 0"
  | .emptyWindow => "pow_averaging_window must be > 0"
  | .windowSumOverflow => "pow_limit * pow_averaging_window overflows 256 bits"
  | .nonPositiveSpacing => "target spacings must be > 0"
  | .shortTimespan => "pow_target_timespan must cover at least one block"
  | .adjustUpOutOfRange => "pow_max_adjust_up must be in [0, 100)"
  | .negativeAdjustDown => "pow_max_adjust_down must be >= 0"
  | .noEras => "legacy_eras must be non-empty"
  | .nonPositiveEra => "legacy_eras divisors and multipliers must be > 0"

def Flaw.message (f : Flaw) : String := "consensus params invalid: " ++ f.requirement

def check (p : Params) : Except Flaw Unit :=
  if p.powLimit.toNat = 0 then .error .zeroLimit
  else if p.window = 0 then .error .emptyWindow
  else if UInt256.greatest.toNat / p.powLimit.toNat < p.window then .error .windowSumOverflow
  else if p.targetSpacing.toInt ≤ 0 ∨ p.legacySpacing.toInt ≤ 0 then .error .nonPositiveSpacing
  else if p.targetTimespan.toInt < p.legacySpacing.toInt then .error .shortTimespan
  else if ¬(0 ≤ p.maxAdjustUp.toInt ∧ p.maxAdjustUp.toInt < 100) then .error .adjustUpOutOfRange
  else if p.maxAdjustDown.toInt < 0 then .error .negativeAdjustDown
  else if p.eras.isEmpty then .error .noEras
  else if ∃ e ∈ p.eras, e.minDivisor.toInt ≤ 0 ∨ e.maxMultiplier.toInt ≤ 0 then
    .error .nonPositiveEra
  else .ok ()

def Valid (p : Params) : Prop := p.check = .ok ()

instance (p : Params) : Decidable p.Valid :=
  match h : p.check with
  | .ok () => isTrue h
  | .error _ => isFalse (by simp [Valid, h])

theorem Valid.window_ne_zero {p : Params} (hp : p.Valid) : p.window ≠ 0 := by
  intro hw
  rw [Valid, check, if_pos hw] at hp
  split at hp <;> cases hp

end HeaderSync.Params
