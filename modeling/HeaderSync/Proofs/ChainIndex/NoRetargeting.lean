import HeaderSync.Proofs.ChainIndex.MedianTimes
import HeaderSync.Proofs.Retarget.Transition

/-!
# Without retargeting

Above the switch a chain without retargeting keeps its bits, and the index asks for nothing else. The
window does not know of this rule. It lets the same bits pass again as a permitted transition, but a
late header after which the limit may be used has to use it: there the two disagree.
-/

namespace HeaderSync
attribute [local irreducible] Header.id Compact.work

theorem Compact.overflows_of_isValid {c : Compact} (h : c.isValid = true) : c.overflows = false := by
  simp only [isValid, Bool.and_eq_true, Bool.not_eq_true'] at h
  exact h.1.2

theorem Retarget.required_of_noRetargeting {p : Params} {prior : List Retarget.Sample}
    {last : Retarget.Sample} (hlast : prior.getLast? = some last)
    (hswitch : p.switchHeight.toNat < last.height) (hfrozen : p.noRetargeting = true) (time : Int) :
    Retarget.required p prior time = .ok last.bits := by
  rw [required, hlast]
  dsimp only
  rw [if_neg (Nat.not_le.mpr hswitch), requiredByWindow, if_pos hfrozen]

/-- A permitted transition passes a warm window, unless the header is so late that its bits have to
be the limit's. -/
theorem Window.permits_of_permitted {p : Params} {w : Window} {last next : Stamp} {height : Nat}
    (hp : p.Valid) (hwarm : w.isWarm p = true)
    (hheight : p.switchHeight.toNat + p.window < height)
    (h : Retarget.permitted p height last.bits next.bits = true) :
    w.permits p last next height = .ok (decide ((p.minDifficultyAfter (height - 1) &&
      Retarget.isLate p Retarget.windowGap last.time next.time) = true →
        next.bits = p.limitBits)) := by
  have hbeyond : ¬ height ≤ p.switchHeight.toNat + p.window := by omega
  unfold permits
  rw [hwarm, decide_eq_false hbeyond, Retarget.expected_eq hwarm (Retarget.meanTarget_eq hp w.bits),
    if_neg (by simp)]
  by_cases hlate : (p.minDifficultyAfter (height - 1) &&
      Retarget.isLate p Retarget.windowGap last.time next.time) = true
  · rw [if_pos hlate]
    exact congrArg Except.ok (decide_eq_decide.mpr ⟨fun h _ => h, fun h => h hlate⟩)
  · rw [if_neg hlate, decide_eq_true fun hlate' => absurd hlate' hlate]
    exact congrArg Except.ok (by rw [h, Bool.or_true])

namespace ChainIndex
variable {p : Params} {i : ChainIndex} {id : Digest} {e : Entry} {older : List Entry}

theorem requiredAfter_of_noRetargeting (ha : i.ancestors id = e :: older)
    (hswitch : p.switchHeight.toNat < e.height) (hfrozen : p.noRetargeting = true) (time : Int) :
    i.requiredAfter p id time = .ok e.header.bits := by
  rw [requiredAfter_of_ancestors ha,
    Retarget.required_of_noRetargeting (getLast?_samples ha) hswitch hfrozen]
  rfl

/-- The window that a session starts with knows all that it would of the whole chain. -/
theorem WellFormed.exists_startWindow (hi : i.WellFormed) (he : i.get? id = some e) :
    ∃ c, i.chainStart? id (Session.historyLength p) = some c ∧
      Window.ofHistory p c.history = .after p ((i.ancestors id).map Entry.stamp) := by
  have hnone : i.Descends e [] := trivial
  have hwindow := windowAfter_eq (p := p) hi he hnone (Nat.le_refl _)
  obtain ⟨c, hc, hsame⟩ := Option.map_eq_some_iff.mp hwindow
  exact ⟨c, hc, by rwa [List.getLastD_nil, hi.id_of_get? he] at hsame⟩

/-- What the window says to the bits of the last header once more, beyond the heights just after the
switch. -/
theorem permits_same_bits (hp : p.Valid) (hl : Lineage (e :: older))
    (hheight : p.switchHeight.toNat + p.window ≤ e.height)
    (hvalid : e.header.bits.isValid = true) (hlimit : e.header.bits.target ≤ p.powLimit)
    (time : Int) :
    (Window.after p ((e :: older).map Entry.stamp)).permits p e.stamp ⟨e.header.bits, time⟩
      (e.height + 1) = .ok (decide ((p.minDifficultyAfter e.height &&
        Retarget.isLate p Retarget.windowGap e.header.seconds time) = true →
          e.header.bits = p.limitBits)) := by
  have hlength : (e :: older).length = e.height + 1 := hl.length_eq
  have hwarm : (Window.after p ((e :: older).map Entry.stamp)).isWarm p = true := by
    rw [Window.isWarm_after, List.length_map, hlength]
    exact decide_eq_true (by omega)
  exact Window.permits_of_permitted hp hwarm (Nat.lt_succ_of_le hheight)
    (Retarget.permitted_self hp (e.height + 1) (Compact.overflows_of_isValid hvalid) hlimit)

/-- Without retargeting, beyond the heights just after the switch, the index requires the parent's
bits of every child. The window of a session that starts at the parent permits them exactly if the
child is not late enough for the limit to be due, or if they are the limit's. -/
theorem unchanged_bits_permitted_iff (hp : p.Valid) (hfrozen : p.noRetargeting = true)
    (hi : i.Built) (he : i.get? id = some e)
    (hheight : p.switchHeight.toNat + p.window ≤ e.height)
    (hvalid : e.header.bits.isValid = true) (hlimit : e.header.bits.target ≤ p.powLimit)
    (time : Int) :
    ∃ c bits permitted, i.chainStart? id (Session.historyLength p) = some c ∧
      i.requiredAfter p id time = .ok bits ∧ bits = e.header.bits ∧
      (Window.ofHistory p c.history).permits p e.stamp ⟨bits, time⟩ (e.height + 1) =
        .ok permitted ∧
      (permitted = true ↔ ((p.minDifficultyAfter e.height &&
        Retarget.isLate p Retarget.windowGap e.header.seconds time) = true →
          bits = p.limitBits)) := by
  obtain ⟨older, ha⟩ := get?_eq_some.mp he
  obtain ⟨c, hc, hwindow⟩ := hi.wellFormed.exists_startWindow (p := p) he
  have hpos := hp.window_ne_zero
  have hpermits := permits_same_bits hp (hi.wellFormed.lineage ha).2 hheight hvalid hlimit time
  rw [← ha, ← hwindow] at hpermits
  exact ⟨c, _, _, hc, requiredAfter_of_noRetargeting ha (by omega) hfrozen time, rfl, hpermits,
    decide_eq_true_iff⟩

/-- A child six spacings after its parent, the latest for which the limit is not due. -/
theorem unchanged_bits_permitted_iff_child :
    let p : Params := { Params.regtest with
      powLimit := .greatest, averagingWindow := 1, allowMinDifficultyAfter := some 0 }
    let g : Header := ⟨1, .zero, .zero, 1700000000, ⟨0x200f0f0f⟩, 0⟩
    let h : Header := ⟨4, g.id, .zero, 1700000001, ⟨0x200f0f0f⟩, 0⟩
    let start : Entry := .genesis g
    let e : Entry := .child h start []
    let i : ChainIndex := (ChainIndex.empty.add start []).add e [start]
    p.Valid ∧ p.noRetargeting = true ∧ i.Built ∧ i.get? e.id = some e ∧
      p.switchHeight.toNat + p.window ≤ e.height ∧ e.header.bits.isValid = true ∧
      e.header.bits.target ≤ p.powLimit ∧
      ∃ c, i.chainStart? e.id (Session.historyLength p) = some c ∧
        i.requiredAfter p e.id 1700000361 = .ok e.header.bits ∧
        (Window.ofHistory p c.history).permits p e.stamp ⟨e.header.bits, 1700000361⟩
          (e.height + 1) = .ok true := by
  intro p g h start e i
  have hp : p.Valid := by decide +kernel
  have hvalid : e.header.bits.isValid = true := by decide +kernel
  have hlimit : e.header.bits.target ≤ p.powLimit := e.header.bits.target.toNat_le
  obtain ⟨hi, -, hds, -, -⟩ := built_second_later
  obtain ⟨c, bits, permitted, hc, hrequired, rfl, hpermits, hiff⟩ :=
    unchanged_bits_permitted_iff hp rfl hi hds.1 (by decide) hvalid hlimit 1700000361
  obtain rfl : permitted = true := hiff.mpr fun hlate => absurd hlate (by decide)
  exact ⟨hp, rfl, hi, hds.1, by decide, hvalid, hlimit, c, hc, hrequired, hpermits⟩

/-- A second later the window refuses the bits that the index requires. -/
theorem late_unchanged_bits_refused :
    let p : Params := { Params.regtest with
      powLimit := .greatest, averagingWindow := 1, allowMinDifficultyAfter := some 0 }
    let g : Header := ⟨1, .zero, .zero, 1700000000, ⟨0x200f0f0f⟩, 0⟩
    let h : Header := ⟨4, g.id, .zero, 1700000001, ⟨0x200f0f0f⟩, 0⟩
    let start : Entry := .genesis g
    let e : Entry := .child h start []
    let i : ChainIndex := (ChainIndex.empty.add start []).add e [start]
    p.Valid ∧ p.noRetargeting = true ∧ i.Built ∧ i.get? e.id = some e ∧
      p.switchHeight.toNat + p.window ≤ e.height ∧ e.header.bits.isValid = true ∧
      e.header.bits.target ≤ p.powLimit ∧
      ∃ c, i.chainStart? e.id (Session.historyLength p) = some c ∧
        i.requiredAfter p e.id 1700000362 = .ok e.header.bits ∧
        (Window.ofHistory p c.history).permits p e.stamp ⟨e.header.bits, 1700000362⟩
          (e.height + 1) = .ok false := by
  intro p g h start e i
  have hp : p.Valid := by decide +kernel
  have hvalid : e.header.bits.isValid = true := by decide +kernel
  have hlimit : e.header.bits.target ≤ p.powLimit := e.header.bits.target.toNat_le
  obtain ⟨hi, -, hds, -, -⟩ := built_second_later
  obtain ⟨older, ha⟩ := get?_eq_some.mp hds.1
  obtain ⟨c, hc, hwindow⟩ := hi.wellFormed.exists_startWindow (p := p) hds.1
  have hrequired := requiredAfter_of_noRetargeting (p := p) ha (by decide) rfl 1700000362
  have hpermits := permits_same_bits hp (hi.wellFormed.lineage ha).2 (by decide) hvalid hlimit
    1700000362
  rw [← ha, ← hwindow] at hpermits
  refine ⟨hp, rfl, hi, hds.1, by decide, hvalid, hlimit, c, hc, hrequired, hpermits.trans ?_⟩
  exact congrArg Except.ok (decide_eq_false fun hkept => absurd (hkept (by decide)) (by decide +kernel))

end ChainIndex
end HeaderSync
