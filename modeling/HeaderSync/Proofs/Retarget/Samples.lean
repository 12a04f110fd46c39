import HeaderSync.Proofs.UInt256.Sum
import HeaderSync.Retarget
import Mathlib.Data.List.Chain

/-!
# Runs of samples at consecutive heights

The rules are handed samples of consecutive heights, oldest first, and find the sample at a height
by its distance from the oldest one.
-/

namespace HeaderSync.Retarget

def Consecutive (prior : List Sample) : Prop :=
  prior.IsChain fun s next => next.height = s.height + 1

theorem Consecutive.height_eq {oldest s : Sample} {between later : List Sample}
    (hc : Consecutive (oldest :: between ++ s :: later)) :
    s.height = oldest.height + between.length + 1 := by
  induction between generalizing oldest with
  | nil => exact (List.isChain_cons_cons.mp hc).1
  | cons t between ih =>
    obtain ⟨ht, hrest⟩ := List.isChain_cons_cons.mp hc
    have hs : s.height = t.height + between.length + 1 := ih hrest
    rw [List.length_cons]
    omega

theorem splitAt?_append {before later : List Sample} {s : Sample}
    (hc : Consecutive (before ++ s :: later)) :
    splitAt? (before ++ s :: later) s.height = some (s, later) := by
  cases before with
  | nil => simp [splitAt?]
  | cons oldest before =>
    have hs : s.height = oldest.height + before.length + 1 := hc.height_eq
    have hdist : s.height - oldest.height = (oldest :: before).length := by
      rw [List.length_cons]
      omega
    have hlow : ¬ s.height < oldest.height := by omega
    simp only [splitAt?, List.cons_append, List.head?_cons, Option.bind_eq_bind, Option.bind_some,
      if_neg hlow]
    rw [hdist, ← List.cons_append, List.drop_left]
    exact if_pos rfl

theorem meanTarget_reverse (count : Nat) (bits : List Compact) :
    meanTarget count bits.reverse = meanTarget count bits := by
  simp only [meanTarget, List.map_reverse, UInt256.sum_reverse]

/-- The window rule where nothing exempts the block from it and the history reaches back to the
last sample before the averaged ones. -/
theorem required_of_splitAt? {p : Params} {prior later : List Sample} {last first : Sample}
    {time : Int} (hlast : prior.getLast? = some last)
    (hswitch : p.switchHeight.toNat < last.height) (hretarget : p.noRetargeting = false)
    (hgap : (p.minDifficultyAfter last.height && isLate p windowGap last.time time) = false)
    (hwarm : p.window ≤ last.height)
    (hsplit : splitAt? prior (last.height - p.window) = some (first, later)) :
    required p prior time = (meanTarget p.window (later.map Sample.bits)).map fun mean =>
      windowBits p mean last.medianTime first.medianTime := by
  rw [required, hlast]
  simp only [if_neg (Nat.not_le.mpr hswitch), requiredByWindow, hretarget, hgap,
    if_neg (Nat.not_lt.mpr hwarm), hsplit]
  cases meanTarget p.window (later.map Sample.bits) <;> rfl

/-- The window rule for a late header. -/
theorem required_of_isLate {p : Params} {prior : List Sample} {last : Sample} {time : Int}
    (hlast : prior.getLast? = some last) (hswitch : p.switchHeight.toNat < last.height)
    (hretarget : p.noRetargeting = false)
    (hlate : (p.minDifficultyAfter last.height && isLate p windowGap last.time time) = true) :
    required p prior time = .ok p.limitBits := by
  rw [required, hlast]
  simp only [if_neg (Nat.not_le.mpr hswitch), requiredByWindow, hretarget, hlate, if_true,
    Bool.false_eq_true, if_false]

end HeaderSync.Retarget
