import HeaderSync.UInt256
import Mathlib.Algebra.BigOperators.Group.List.Basic
import Mathlib.Algebra.GroupWithZero.Nat

/-!
# Saturating sums

A saturating sum is the sum of the numbers, or the greatest number if that is too large. It does
not depend on the order of the summands.
-/

namespace HeaderSync.UInt256

theorem toNat_foldl_satAdd (base : UInt256) (xs : List UInt256) :
    (xs.foldl satAdd base).toNat = min (base.toNat + (xs.map toNat).sum) ((1 <<< 256) - 1) := by
  induction xs generalizing base with
  | nil =>
    have := base.toNat_le
    simp only [List.foldl_nil, List.map_nil, List.sum_nil]
    omega
  | cons x xs ih =>
    rw [List.foldl_cons, ih, toNat_satAdd, List.map_cons, List.sum_cons]
    omega

theorem toNat_sum (xs : List UInt256) :
    (sum xs).toNat = min (xs.map toNat).sum ((1 <<< 256) - 1) := by
  rw [sum, toNat_foldl_satAdd, toNat_zero, Nat.zero_add]

theorem sum_cons (x : UInt256) (xs : List UInt256) : sum (x :: xs) = (sum xs).satAdd x := by
  apply ext
  rw [toNat_satAdd, toNat_sum, toNat_sum, List.map_cons, List.sum_cons]
  omega

theorem zero_satAdd (x : UInt256) : satAdd 0 x = x := by
  apply ext
  rw [toNat_satAdd, toNat_zero, Nat.zero_add]
  exact Nat.min_eq_left x.toNat_le

/-- Saturation keeps no trace of the order of the summands. -/
theorem sum_reverse (xs : List UInt256) : sum xs.reverse = sum xs :=
  ext (by rw [toNat_sum, toNat_sum, List.map_reverse, List.sum_reverse])

end HeaderSync.UInt256
