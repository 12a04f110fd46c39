import HeaderSync.Document
import HeaderSync.Params

/-!
# Parameters as documents

Wide numbers are hexadecimal texts. The optional height is left out where there is none, and a
missing list of eras stands for the default ones.
-/

namespace HeaderSync

def Network.name : Network → String
  | .main => "main"
  | .testnet => "testnet"
  | .signet => "signet"
  | .regtest => "regtest"

def Network.ofName? : String → Option Network
  | "main" => some .main
  | "testnet" => some .testnet
  | "signet" => some .signet
  | "regtest" => some .regtest
  | _ => none

theorem Network.ofName?_name (n : Network) : ofName? n.name = some n := by
  cases n <;> rfl

namespace Era

def fieldNames : List String := ["above_height", "min_divisor", "max_multiplier"]

def toFields (e : Era) : List (String × Value) :=
  [("above_height", .integer e.aboveHeight.toNat),
    ("min_divisor", .integer e.minDivisor.toInt),
    ("max_multiplier", .integer e.maxMultiplier.toInt)]

def ofValue? (d : Dialect) (v : Value) : Option Era := do
  let fields ← v.record? d fieldNames
  return {
    aboveHeight := ← Value.required fields "above_height" Value.toUInt64?
    minDivisor := ← Value.required fields "min_divisor" Value.toInt64?
    maxMultiplier := ← Value.required fields "max_multiplier" Value.toInt64? }

end Era

namespace Params

def fieldNames : List String :=
  ["network", "pow_limit", "minimum_chain_work", "pow_averaging_window", "pow_target_spacing",
    "legacy_target_spacing", "pow_target_timespan", "pow_max_adjust_up", "pow_max_adjust_down",
    "new_pow_diff_height", "pow_allow_min_difficulty_blocks",
    "pow_allow_min_difficulty_blocks_after_height", "pow_no_retargeting", "legacy_eras"]

def toFields (p : Params) : List (String × Value) :=
  [("network", .text p.network.name),
    ("pow_limit", .text p.powLimit.toHex),
    ("minimum_chain_work", .text p.minimumChainWork.toHex),
    ("pow_averaging_window", .integer p.averagingWindow.toNat),
    ("pow_target_spacing", .integer p.targetSpacing.toInt),
    ("legacy_target_spacing", .integer p.legacySpacing.toInt),
    ("pow_target_timespan", .integer p.targetTimespan.toInt),
    ("pow_max_adjust_up", .integer p.maxAdjustUp.toInt),
    ("pow_max_adjust_down", .integer p.maxAdjustDown.toInt),
    ("new_pow_diff_height", .integer p.switchHeight.toNat),
    ("pow_allow_min_difficulty_blocks", .boolean p.allowMinDifficulty)] ++
    p.allowMinDifficultyAfter.toList.map (fun height =>
      ("pow_allow_min_difficulty_blocks_after_height", .integer height.toNat)) ++
    [("pow_no_retargeting", .boolean p.noRetargeting),
      ("legacy_eras", .list .inline (p.eras.map fun e => .table .inline e.toFields))]

def toValue (p : Params) : Value := .table .inline p.toFields

def ofValue? (d : Dialect) (v : Value) : Option Params := do
  let fields ← v.record? d fieldNames
  return {
    network := ← Value.required fields "network" fun v => do
      Network.ofName? (← v.alternative? d)
    powLimit := ← Value.required fields "pow_limit" Value.toUInt256?
    minimumChainWork := ← Value.required fields "minimum_chain_work" Value.toUInt256?
    averagingWindow := ← Value.required fields "pow_averaging_window" Value.toUInt32?
    targetSpacing := ← Value.required fields "pow_target_spacing" Value.toInt64?
    legacySpacing := ← Value.required fields "legacy_target_spacing" Value.toInt64?
    targetTimespan := ← Value.required fields "pow_target_timespan" Value.toInt64?
    maxAdjustUp := ← Value.required fields "pow_max_adjust_up" Value.toInt64?
    maxAdjustDown := ← Value.required fields "pow_max_adjust_down" Value.toInt64?
    switchHeight := ← Value.required fields "new_pow_diff_height" Value.toUInt64?
    allowMinDifficulty := ← Value.required fields "pow_allow_min_difficulty_blocks" Value.toBool?
    allowMinDifficultyAfter := ←
      Value.optional fields "pow_allow_min_difficulty_blocks_after_height" Value.toUInt64?
    noRetargeting := ← Value.required fields "pow_no_retargeting" Value.toBool?
    eras := ← Value.withDefault fields "legacy_eras" Era.defaults
      (Value.toList? (Era.ofValue? d)) }

end Params
end HeaderSync
