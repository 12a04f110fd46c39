/-!
# Drawing below a bound

A uniform draw multiplies a random word by the bound and takes the high half of the product. A word
is thrown away if the low half lies above the greatest multiple of the bound's range.
-/

namespace HeaderSync

/-- The greatest low half that keeps draws uniform, for a bound of at most 64 bits. -/
def drawZone (bound : Nat) : Nat := (bound <<< (63 - bound.log2)) - 1

/-- A draw below `bound` from a supply of words; a supply that runs out goes on with zeros. -/
def drawBelow (bound : Nat) : List UInt64 → Nat
  | [] => 0
  | word :: rest =>
    let product := word.toNat * bound
    if product % 0x10000000000000000 ≤ drawZone bound then product / 0x10000000000000000
    else drawBelow bound rest

theorem drawBelow_lt {bound : Nat} (h : 0 < bound) (words : List UInt64) :
    drawBelow bound words < bound := by
  induction words with
  | nil => exact h
  | cons word rest ih =>
    simp only [drawBelow]
    split
    · rw [Nat.div_lt_iff_lt_mul (by decide), Nat.mul_comm bound]
      exact Nat.mul_lt_mul_of_pos_right word.toNat_lt h
    · exact ih

end HeaderSync
