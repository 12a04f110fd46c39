import HeaderSync.Params

/-!
# Parameters of the known networks
-/

namespace HeaderSync.Params

def main : Params where
  network := .main
  powLimit := .wrap ((1 <<< 236) - 1)
  minimumChainWork := 0x100010
  averagingWindow := 17
  targetSpacing := 60
  legacySpacing := 60
  targetTimespan := 14400
  maxAdjustUp := 16
  maxAdjustDown := 32
  switchHeight := 144000
  allowMinDifficulty := false
  allowMinDifficultyAfter := none
  noRetargeting := false
  eras := Era.defaults

def testnet : Params :=
  { main with
    network := .testnet
    powLimit := .wrap ((1 <<< 248) - 1)
    switchHeight := 20 }

def signet : Params :=
  { main with
    network := .signet
    powLimit := .wrap (0x0377ae <<< 216)
    minimumChainWork := 0
    legacySpacing := 600
    targetTimespan := 1209600
    switchHeight := 999999999 }

/-- The limit is the greatest one whose sum over the window keeps 256 bits. -/
def regtest : Params :=
  { main with
    network := .regtest
    powLimit := UInt256.greatest.divNat 17
    minimumChainWork := 0
    maxAdjustUp := 0
    maxAdjustDown := 0
    switchHeight := 0
    allowMinDifficulty := true
    noRetargeting := true }

def preset : Network → Params
  | .main => main
  | .testnet => testnet
  | .signet => signet
  | .regtest => regtest

end HeaderSync.Params
