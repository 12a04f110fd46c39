import HeaderSync.Proofs.ChainIndex.WindowAgreement

/-!
# The window permits the required bits

Wherever the index requires some bits of the next header, the window over the same ancestors permits
them. While the window is cold and just after the switch it permits everything. Above that the index
uses the window rule: a late header has the limit's bits under both, and any other one the bits that
the window expects.
-/

namespace HeaderSync
attribute [local irreducible] Header.id Compact.work

theorem Window.isClose_self (target : UInt256) : isClose target target = true := by
  simp [isClose]

namespace ChainIndex
variable {p : Params} {i : ChainIndex} {id : Digest} {e : Entry} {older : List Entry}

theorem requiredAfter_of_isLate (ha : i.ancestors id = e :: older) {time : Int}
    (hswitch : p.switchHeight.toNat < e.height) (hretarget : p.noRetargeting = false)
    (hlate : (p.minDifficultyAfter e.height &&
      Retarget.isLate p Retarget.windowGap e.header.seconds time) = true) :
    i.requiredAfter p id time = .ok p.limitBits := by
  rw [requiredAfter_of_ancestors ha,
    Retarget.required_of_isLate (getLast?_samples ha) hswitch hretarget hlate]
  rfl

/-- A warm window expects what the index requires, unless an exception applies. -/
theorem expected_eq_required (hp : p.Valid) (ha : i.ancestors id = e :: older)
    (hl : Lineage (e :: older)) (time : Int)
    (hwarm : (Window.after p ((e :: older).map Entry.stamp)).isWarm p = true)
    (hswitch : p.switchHeight.toNat < e.height) (hretarget : p.noRetargeting = false)
    (hgap : (p.minDifficultyAfter e.height &&
      Retarget.isLate p Retarget.windowGap e.header.seconds time) = false) :
    ∃ bits, (Window.after p ((e :: older).map Entry.stamp)).expected p = .ok (some bits) ∧
      i.requiredAfter p id time = .ok bits := by
  have hlength : p.window ≤ older.length := by
    rw [Window.isWarm_after, decide_eq_true_iff, List.length_map, List.length_cons] at hwarm
    omega
  obtain ⟨between, first, rest, rfl, hbetween⟩ := exists_split hp.window_ne_zero hlength
  rw [← List.cons_append] at ha hl ⊢
  rw [Window.expected_after_lineage hl hbetween,
    requiredAfter_of_lineage ha hl hbetween hswitch hretarget hgap, Retarget.meanTarget,
    if_neg hp.window_ne_zero]
  exact ⟨_, rfl, rfl⟩

theorem permits_required (hp : p.Valid) (hretarget : p.noRetargeting = false)
    (ha : i.ancestors id = e :: older) (hl : Lineage (e :: older)) (next : Stamp)
    (hbits : i.requiredAfter p id next.time = .ok next.bits) :
    (Window.after p ((e :: older).map Entry.stamp)).permits p e.stamp next (e.height + 1) =
      .ok true := by
  have hexpected := expected_eq_required hp ha hl next.time
  generalize Window.after p ((e :: older).map Entry.stamp) = w at hexpected ⊢
  unfold Window.permits
  by_cases hfree : w.isWarm p = false ∨ e.height + 1 ≤ p.switchHeight.toNat + p.window
  · rw [if_pos (by simpa using hfree)]
  · obtain ⟨hcold, hgrace⟩ := not_or.mp hfree
    have hwarm : w.isWarm p = true := by simpa using hcold
    have hpos := hp.window_ne_zero
    have hswitch : p.switchHeight.toNat < e.height := by omega
    rw [if_neg (by simpa using hfree), Nat.add_sub_cancel]
    by_cases hlate : (p.minDifficultyAfter e.height &&
        Retarget.isLate p Retarget.windowGap e.stamp.time next.time) = true
    · rw [requiredAfter_of_isLate ha hswitch hretarget hlate] at hbits
      rw [if_pos hlate, ← Except.ok.inj hbits, decide_eq_true rfl]
    · obtain ⟨bits, hbits', hrequired⟩ :=
        hexpected hwarm hswitch hretarget (Bool.eq_false_iff.mpr hlate)
      obtain rfl := Except.ok.inj (hrequired.symm.trans hbits)
      rw [if_neg hlate, hbits']
      exact congrArg Except.ok (by rw [Window.isClose_self, Bool.true_or])

end ChainIndex
end HeaderSync
