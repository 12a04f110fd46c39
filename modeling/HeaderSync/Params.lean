import HeaderSync.Compact
import HeaderSync.Time

/-!
# Consensus parameters

The constants of a network that the difficulty rules read, and the quantities derived from them.
Timespans are in seconds and divide toward zero.
-/

namespace HeaderSync

inductive Network where
  | main
  | testnet
  | signet
  | regtest
deriving DecidableEq

structure Era where
  aboveHeight : UInt64
  minDivisor : Int64
  maxMultiplier : Int64
deriving DecidableEq

structure Params where
  network : Network
  /-- The easiest target. -/
  powLimit : UInt256
  /-- Work that a chain needs before it is worth downloading. -/
  minimumChainWork : UInt256
  /-- Number of targets that the window rule averages. -/
  averagingWindow : UInt32
  /-- Seconds per block. -/
  targetSpacing : Int64
  /-- Seconds per block that set the length of an adjustment interval. -/
  legacySpacing : Int64
  targetTimespan : Int64
  /-- Greatest adjustment to a harder target, in percent. -/
  maxAdjustUp : Int64
  /-- Greatest adjustment to an easier target, in percent. -/
  maxAdjustDown : Int64
  /-- The last height whose successor still follows the interval rule. -/
  switchHeight : UInt64
  allowMinDifficulty : Bool
  allowMinDifficultyAfter : Option UInt64
  noRetargeting : Bool
  eras : List Era
deriving DecidableEq

def Era.defaults : List Era :=
  [⟨10000, 4, 4⟩, ⟨5000, 8, 4⟩, ⟨0, 16, 4⟩]

namespace Params

def limitBits (p : Params) : Compact := .ofTarget p.powLimit

def interval (p : Params) : Nat :=
  if p.legacySpacing.toInt ≤ 0 then 1
  else max 1 (p.targetTimespan.toInt.tdiv p.legacySpacing.toInt).toNat

def window (p : Params) : Nat := p.averagingWindow.toNat

def windowTimespan (p : Params) : Int := p.window * p.targetSpacing.toInt

def minWindowTimespan (p : Params) : Int :=
  (p.windowTimespan * (100 - p.maxAdjustUp.toInt)).tdiv 100

def maxWindowTimespan (p : Params) : Int :=
  (p.windowTimespan * (100 + p.maxAdjustDown.toInt)).tdiv 100

/-- The first era that lies below a height; heights under every era fall to the last one. -/
def eraAt? (p : Params) (height : Nat) : Option Era :=
  (p.eras.find? fun e => e.aboveHeight.toNat < height) <|> p.eras.getLast?

def legacyBounds (p : Params) (height : Nat) : Int × Int :=
  let timespan := p.targetTimespan.toInt
  match p.eraAt? height with
  | some e =>
    (timespan.tdiv (max 1 e.minDivisor.toInt), clampSeconds (timespan * e.maxMultiplier.toInt))
  | none => (timespan.tdiv 4, clampSeconds (timespan * 4))

/-- Whether a late block after the given height may use the easiest target. -/
def minDifficultyAfter (p : Params) (height : Nat) : Bool :=
  p.allowMinDifficultyAfter.any fun first => first.toNat ≤ height

end Params
end HeaderSync
