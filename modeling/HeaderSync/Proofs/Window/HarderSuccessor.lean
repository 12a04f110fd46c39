import HeaderSync.Proofs.Retarget.WindowRule
import HeaderSync.Proofs.Time.Median

/-!
# How much harder the next target can be

A warm window beyond the switch lets bits pass for one of three reasons: the header is late and has
the limit's bits, its target is close to the expected one, or the interval rule's bounds permit it.
Each of them keeps the target above one bound that depends only on the least target of the window.
-/

namespace HeaderSync

namespace Retarget
variable {p : Params} {height : Nat} {old new : Compact}

/-- Inside an interval the bits stay; at its start a quarter of the old target bounds the new one. -/
theorem eq_or_scaledTarget_le (hmin : p.allowMinDifficulty = false)
    (h : permitted p height old new = true) :
    old = new ∨
      scaledTarget p old ((max 1 p.targetTimespan.toInt).toNat / 4) ≤ new.target := by
  unfold permitted at h
  rw [hmin, if_neg Bool.false_ne_true] at h
  split_ifs at h with hinside
  · exact .inl (of_decide_eq_true h)
  · exact .inr (of_decide_eq_true (Bool.and_eq_true_iff.mp h).2)

theorem mul_quarter_div_le (n timespan : Nat) : n * (timespan / 4) / timespan ≤ n := by
  apply Nat.div_le_of_le_mul
  rw [Nat.mul_comm]
  exact Nat.mul_le_mul_right _ (Nat.div_le_self timespan 4)

/-- What a quarter of the interval's timespan makes of a target. -/
theorem exists_quartered (p : Params) (t : UInt256) : ∃ quartered : UInt256, quartered.toNat =
    t.toNat * (p.targetTimespan.toInt.toNat / 4) / p.targetTimespan.toInt.toNat :=
  ⟨⟨_, Nat.lt_of_le_of_lt (mul_quarter_div_le _ _) t.toNat_lt⟩, rfl⟩

/-- A quarter of the least target is no more than what the rule leaves of any other one. -/
theorem round_le_scaledTarget (hp : p.Valid) {least quartered : UInt256}
    (hold : least ≤ old.target) (hlimit : least ≤ p.powLimit)
    (hquartered : quartered.toNat =
      least.toNat * (p.targetTimespan.toInt.toNat / 4) / p.targetTimespan.toInt.toNat) :
    Compact.round quartered ≤
      scaledTarget p old ((max 1 p.targetTimespan.toInt).toNat / 4) := by
  have hpos := hp.targetTimespan_pos
  have hmax : (max 1 p.targetTimespan.toInt).toNat = p.targetTimespan.toInt.toNat := by omega
  unfold scaledTarget
  rw [hmax]
  generalize p.targetTimespan.toInt.toNat = timespan at hquartered hmax ⊢
  have hne : timespan ≠ 0 := by omega
  apply Compact.round_mono
  rw [UInt256.mulDiv, if_neg hne, UInt256.le_iff, toNat_min_clamp, hquartered]
  apply Nat.le_min.mpr
  constructor
  · exact Nat.div_le_div_right (Nat.mul_le_mul_right _ hold)
  · exact Nat.le_trans (mul_quarter_div_le _ _) hlimit

end Retarget

namespace Window
variable {p : Params} {w : Window} {last next : Stamp} {height : Nat}

/-- The least target of the window, or the limit where that is less. -/
def leastTarget (p : Params) (w : Window) : UInt256 :=
  (w.bits.map Compact.target).foldr min p.powLimit

theorem foldr_min_le (x : UInt256) (xs : List UInt256) :
    xs.foldr min x ≤ x ∧ ∀ y ∈ xs, xs.foldr min x ≤ y := by
  induction xs with
  | nil => exact ⟨Nat.le_refl _, fun y hy => absurd hy List.not_mem_nil⟩
  | cons z xs ih =>
    simp only [UInt256.le_iff, List.foldr_cons, UInt256.toNat_min, List.mem_cons] at ih ⊢
    refine ⟨by omega, ?_⟩
    rintro y (rfl | hy)
    · omega
    · have := ih.2 y hy
      omega

theorem leastTarget_le_powLimit (p : Params) (w : Window) : w.leastTarget p ≤ p.powLimit :=
  (foldr_min_le _ _).1

theorem leastTarget_le {b : Compact} (hb : b ∈ w.bits) : w.leastTarget p ≤ b.target :=
  (foldr_min_le _ _).2 _ (List.mem_map_of_mem hb)

/-- Why a warm window beyond the switch lets bits pass. -/
theorem permits_cases {mean : UInt256} (hwarm : w.isWarm p = true)
    (hmean : Retarget.meanTarget p.window w.bits = .ok mean)
    (hheight : p.switchHeight.toNat + p.window < height)
    (h : w.permits p last next height = .ok true) :
    next.bits = p.limitBits ∨
      isClose (Retarget.windowBits p mean (w.medians.headD 0) (w.medians.getLastD 0)).target
        next.bits.target = true ∨
      Retarget.permitted p height last.bits next.bits = true := by
  have hbeyond : ¬ height ≤ p.switchHeight.toNat + p.window := by omega
  unfold permits at h
  rw [hwarm, decide_eq_false hbeyond, Retarget.expected_eq hwarm hmean] at h
  simp only [Bool.not_true, Bool.or_self, Bool.false_eq_true, if_false] at h
  split_ifs at h with hlate
  · exact .inl (of_decide_eq_true (Except.ok.inj h))
  · exact .inr (Bool.or_eq_true_iff.mp (Except.ok.inj h))

/-- What a warm window lets pass after its newest header, beyond the heights just after the switch,
cannot be much harder than the least target of the window: at worst the window rule's least timespan
makes it so, with the slack on top, or a quarter of the interval's timespan. -/
theorem permits_bounds_hardening (hp : p.Valid) (hmin : p.allowMinDifficulty = false)
    (hwarm : w.isWarm p = true) (hlast : w.bits.head? = some last.bits)
    (hheight : p.switchHeight.toNat + p.window < height)
    (h : w.permits p last next height = .ok true) :
    ∃ damped quartered : UInt256,
      damped.toNat = (w.leastTarget p).toNat / p.windowTimespan.toNat *
        p.minWindowTimespan.toNat ∧
      quartered.toNat = (w.leastTarget p).toNat * (p.targetTimespan.toInt.toNat / 4) /
        p.targetTimespan.toInt.toNat ∧
      min ((Compact.round damped).toNat - slack) (Compact.round quartered).toNat ≤
        next.bits.target.toNat := by
  have hlimit := w.leastTarget_le_powLimit p
  have hmean := Retarget.meanTarget_eq hp w.bits
  have hleast := Retarget.le_mean hp (of_decide_eq_true (Bool.and_eq_true_iff.mp hwarm).1) hlimit
    (fun b hb => leastTarget_le hb) hmean
  generalize (UInt256.sum (w.bits.map Compact.target)).divNat p.window = mean at hmean hleast
  obtain ⟨damped, hdamped, hdampedle⟩ := Retarget.exists_damped hp (w.leastTarget p)
  obtain ⟨quartered, hquartered⟩ := Retarget.exists_quartered p (w.leastTarget p)
  refine ⟨damped, quartered, hdamped, hquartered, ?_⟩
  obtain hlimitbits | hclose | hpermitted := permits_cases hwarm hmean hheight h
  · have hround : Compact.round damped ≤ next.bits.target := by
      rw [hlimitbits]
      exact Compact.round_mono (Nat.le_trans hdampedle hlimit)
    rw [UInt256.le_iff] at hround
    omega
  · have hexpected := Retarget.round_le_windowBits hp hleast hlimit hdamped (w.medians.headD 0)
      (w.medians.getLastD 0)
    have hlow := of_decide_eq_true (Bool.and_eq_true_iff.mp hclose).1
    rw [UInt256.le_iff] at hexpected
    omega
  · obtain hsame | hscaled := Retarget.eq_or_scaledTarget_le hmin hpermitted
    · have hround := Compact.round_le damped
      have hold := leastTarget_le (p := p) (List.mem_of_mem_head? hlast)
      rw [UInt256.le_iff] at hdampedle hround hold
      rw [← hsame]
      omega
    · have hold := leastTarget_le (p := p) (List.mem_of_mem_head? hlast)
      have hround := Retarget.round_le_scaledTarget hp hold hlimit hquartered
      rw [UInt256.le_iff] at hround hscaled
      omega

/-- A quarter of the old target, at the start of an interval. -/
theorem permits_bounds_hardening_quarter :
    let p : Params := { Params.main with averagingWindow := 2, switchHeight := 0 }
    let last : Stamp := ⟨⟨0x1d00ffff⟩, 180⟩
    let next : Stamp := ⟨⟨0x1c3fffc0⟩, 240⟩
    let w : Window := ofHistory p [⟨⟨0x1d00ffff⟩, 60⟩, ⟨⟨0x1d00ffff⟩, 120⟩, last]
    p.Valid ∧ p.allowMinDifficulty = false ∧ w.isWarm p = true ∧
      w.bits.head? = some last.bits ∧ p.switchHeight.toNat + p.window < 240 ∧
      w.permits p last next 240 = .ok true ∧ ∃ damped quartered : UInt256,
        damped.toNat = (w.leastTarget p).toNat / p.windowTimespan.toNat *
          p.minWindowTimespan.toNat ∧
        quartered.toNat = (w.leastTarget p).toNat * (p.targetTimespan.toInt.toNat / 4) /
          p.targetTimespan.toInt.toNat ∧
        min ((Compact.round damped).toNat - slack) (Compact.round quartered).toNat ≤
          next.bits.target.toNat := by
  intro p last next w
  have hp : p.Valid := by decide +kernel
  have hw : w = ⟨[⟨0x1d00ffff⟩, ⟨0x1d00ffff⟩], [120, 120, 60], [180, 120, 60]⟩ := by
    have hlast : medianTime [180, 120, 60] = 120 :=
      medianTime_eq_of_perm (show [60, 120, 180].Perm [180, 120, 60] by decide) (by decide) rfl
    have hsecond : medianTime [120, 60] = 120 :=
      medianTime_eq_of_perm (show [60, 120].Perm [120, 60] by decide) (by decide) rfl
    have hfirst : medianTime [60] = 60 :=
      medianTime_eq_of_perm (.refl [60]) (by decide) rfl
    change Window.mk [⟨0x1d00ffff⟩, ⟨0x1d00ffff⟩]
      [medianTime [180, 120, 60], medianTime [120, 60], medianTime [60]] [180, 120, 60] = _
    rw [hlast, hsecond, hfirst]
  have hwarm : w.isWarm p = true := hw ▸ rfl
  have hlast : w.bits.head? = some last.bits := hw ▸ rfl
  have hheight : p.switchHeight.toNat + p.window < 240 := by decide
  have hpermits : w.permits p last next 240 = .ok true := by
    rw [hw]
    decide +kernel
  exact ⟨hp, rfl, hwarm, hlast, hheight, hpermits,
    permits_bounds_hardening hp rfl hwarm hlast hheight hpermits⟩

end Window
end HeaderSync
