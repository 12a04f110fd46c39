import HeaderSync.Params.Preset
import HeaderSync.Proofs.Retarget.History

/-!
# How far the rules look back

A rule that does not find its answer names the height that it could not reach. That height lies below
the run of samples, and a run that goes down to it and to the start of the last sample's interval
holds an answer. What a run does answer, no older sample changes.
-/

namespace HeaderSync.Retarget
variable {p : Params} {prior older : List Sample} {oldest last first : Sample} {time : Int}
  {error : Error} {height : Nat}

theorem Consecutive.length_eq (hc : Consecutive prior) (hfirst : prior.head? = some oldest)
    (hlast : prior.getLast? = some last) : oldest.height + prior.length = last.height + 1 := by
  obtain ⟨rest, rfl⟩ := List.head?_eq_some_iff.mp hfirst
  cases rest using List.reverseRecOn with
  | nil =>
    cases hlast
    rfl
  | append_singleton between s =>
    rw [← List.cons_append, List.getLast?_concat] at hlast
    cases hlast
    have hheight : last.height = oldest.height + between.length + 1 := hc.height_eq
    simp only [List.length_cons, List.length_append, List.length_nil]
    omega

/-- A run holds every height from its oldest sample to its last. -/
theorem exists_splitAt?_of_le (hc : Consecutive prior) (hfirst : prior.head? = some oldest)
    (hlast : prior.getLast? = some last) (hlow : oldest.height ≤ height)
    (hhigh : height ≤ last.height) : ∃ found, splitAt? prior height = some found := by
  have hlength := hc.length_eq hfirst hlast
  obtain ⟨found, hfound⟩ := exists_splitAt? hc hlast (n := last.height - height) (by omega)
  rw [Nat.sub_sub_self hhigh] at hfound
  exact ⟨found, hfound⟩

theorem lt_of_splitAt?_eq_none (hc : Consecutive prior) (hfirst : prior.head? = some oldest)
    (hlast : prior.getLast? = some last) (hhigh : height ≤ last.height)
    (h : splitAt? prior height = none) : height < oldest.height := by
  by_contra hlow
  obtain ⟨found, hfound⟩ := exists_splitAt?_of_le hc hfirst hlast (Nat.not_lt.mp hlow) hhigh
  rw [h] at hfound
  cases hfound

/-! ### The search for settled bits -/

def isSettled (p : Params) (s : Sample) : Bool :=
  s.height = 0 ∨ s.height % p.interval = 0 ∨ s.bits ≠ p.limitBits

/-- The search finds the newest sample that it stops at, or wants one below the oldest. -/
theorem settledBits_eq (p : Params) (s : Sample) (older : List Sample) :
    settledBits p s older =
      match (s :: older).find? (isSettled p) with
      | some t => .ok t.bits
      | none => .error (.insufficientHistory ((older.getLastD s).height - 1)) := by
  induction older generalizing s with
  | nil =>
    by_cases hs : isSettled p s = true
    · rw [List.find?_cons_of_pos hs]
      exact if_pos (of_decide_eq_true hs)
    · rw [List.find?_cons_of_neg hs]
      exact if_neg (of_decide_eq_false (Bool.eq_false_iff.mpr hs))
  | cons t older ih =>
    by_cases hs : isSettled p s = true
    · rw [List.find?_cons_of_pos hs]
      exact if_pos (of_decide_eq_true hs)
    · rw [List.find?_cons_of_neg hs, List.getLastD_cons, ← ih t]
      exact if_neg (of_decide_eq_false (Bool.eq_false_iff.mpr hs))

theorem settledBits_reverse (hfirst : prior.head? = some oldest)
    (hlast : prior.getLast? = some last) :
    settledBits p last prior.dropLast.reverse =
      match prior.reverse.find? (isSettled p) with
      | some s => .ok s.bits
      | none => .error (.insufficientHistory (oldest.height - 1)) := by
  obtain ⟨before, rfl⟩ := List.getLast?_eq_some_iff.mp hlast
  have holdest : before.reverse.getLastD last = oldest := by
    cases before with
    | nil => exact Option.some.inj hfirst
    | cons s before =>
      rw [List.reverse_cons, List.getLastD_concat]
      exact Option.some.inj hfirst
  rw [settledBits_eq, List.dropLast_concat, List.reverse_concat, holdest]

/-! ### The ways to an error -/

/-- How a rule comes to want a height, where the heights of the run are those from `oldest` to
`last`. -/
inductive Wants (p : Params) (prior : List Sample) (oldest last : Sample) : Nat → Prop
  | settled {height : Nat} (legacy : last.height ≤ p.switchHeight.toNat)
      (inside : (last.height + 1) % p.interval ≠ 0) (unsettled : ∀ s ∈ prior, isSettled p s = false)
      (back : height + 1 = oldest.height) : Wants p prior oldest last height
  | interval {height : Nat} (legacy : last.height ≤ p.switchHeight.toNat)
      (boundary : (last.height + 1) % p.interval = 0)
      (back : height + (if last.height + 1 = p.interval then p.interval - 1 else p.interval) =
        last.height)
      (beyond : height < oldest.height) : Wants p prior oldest last height
  | window {height : Nat} (averaged : p.switchHeight.toNat < last.height)
      (back : height + p.window = last.height) (beyond : height < oldest.height) :
      Wants p prior oldest last height

theorem Wants.lt (h : Wants p prior oldest last height) : height < oldest.height := by
  cases h with
  | settled _ _ _ back => omega
  | interval _ _ _ beyond => exact beyond
  | window _ _ beyond => exact beyond

theorem back_le (hb : (last.height + 1) % p.interval = 0) :
    (if last.height + 1 = p.interval then p.interval - 1 else p.interval) ≤ last.height := by
  have hle := Nat.le_of_dvd (Nat.succ_pos _) (Nat.dvd_of_mod_eq_zero hb)
  split_ifs <;> omega

theorem wants_of_requiredByInterval (hc : Consecutive prior) (hfirst : prior.head? = some oldest)
    (hlast : prior.getLast? = some last) (hlegacy : last.height ≤ p.switchHeight.toNat)
    (h : requiredByInterval p prior last time = .error error) :
    ∃ height, error = .insufficientHistory height ∧ Wants p prior oldest last height := by
  unfold requiredByInterval at h
  by_cases hinside : (last.height + 1) % p.interval ≠ 0
  · rw [if_pos hinside] at h
    split_ifs at h
    rw [settledBits_reverse hfirst hlast] at h
    cases hfind : prior.reverse.find? (isSettled p) with
    | some s => simp [hfind] at h
    | none =>
      rw [hfind] at h
      have hunsettled : ∀ s ∈ prior, isSettled p s = false := by
        intro s hs
        rw [Bool.eq_false_iff]
        exact List.find?_eq_none.mp hfind s (List.mem_reverse.mpr hs)
      have hpos : oldest.height ≠ 0 := by
        intro hzero
        have hnot := hunsettled oldest (List.mem_of_head? hfirst)
        rw [isSettled, decide_eq_false_iff_not] at hnot
        exact hnot (.inl hzero)
      exact ⟨_, (Except.error.inj h).symm, .settled hlegacy hinside hunsettled (by omega)⟩
  · have hboundary := not_not.mp hinside
    have hback := back_le hboundary
    rw [if_neg hinside] at h
    dsimp only at h
    cases hsplit : splitAt? prior (last.height -
        if last.height + 1 = p.interval then p.interval - 1 else p.interval) with
    | some found => simp [hsplit] at h
    | none =>
      rw [hsplit] at h
      have hlt := lt_of_splitAt?_eq_none hc hfirst hlast (Nat.sub_le _ _) hsplit
      exact ⟨_, (Except.error.inj h).symm, .interval hlegacy hboundary (Nat.sub_add_cancel hback) hlt⟩

theorem wants_of_requiredByWindow (hw : p.window ≠ 0) (hc : Consecutive prior)
    (hfirst : prior.head? = some oldest) (hlast : prior.getLast? = some last)
    (haveraged : p.switchHeight.toNat < last.height)
    (h : requiredByWindow p prior last time = .error error) :
    ∃ height, error = .insufficientHistory height ∧ Wants p prior oldest last height := by
  unfold requiredByWindow at h
  split_ifs at h with _ _ hcold
  cases hsplit : splitAt? prior (last.height - p.window) with
  | some found =>
    rw [hsplit] at h
    dsimp only at h
    rw [meanTarget, if_neg hw] at h
    cases h
  | none =>
    rw [hsplit] at h
    have hlt := lt_of_splitAt?_eq_none hc hfirst hlast (Nat.sub_le _ _) hsplit
    exact ⟨_, (Except.error.inj h).symm,
      .window haveraged (Nat.sub_add_cancel (Nat.not_lt.mp hcold)) hlt⟩

theorem wants_of_required (hw : p.window ≠ 0) (hc : Consecutive prior)
    (hfirst : prior.head? = some oldest) (hlast : prior.getLast? = some last)
    (h : required p prior time = .error error) :
    ∃ height, error = .insufficientHistory height ∧ Wants p prior oldest last height := by
  rw [required, hlast] at h
  dsimp only at h
  split_ifs at h with hlegacy
  · exact wants_of_requiredByInterval hc hfirst hlast hlegacy h
  · exact wants_of_requiredByWindow hw hc hfirst hlast (Nat.not_le.mp hlegacy) h

/-! ### The main statement -/

/-- A run that goes down to the height that was wanted and to the start of the last sample's interval
is enough. -/
theorem exists_required_of_wants (hw : p.window ≠ 0) (h : Wants p prior oldest last height)
    {longer : List Sample} (hc : Consecutive longer) (hfirst : longer.head? = some first)
    (hlast : longer.getLast? = some last) (hheight : first.height ≤ height)
    (hstart : first.height ≤ last.height / p.interval * p.interval) :
    ∃ bits, required p longer time = .ok bits := by
  have hlength := hc.length_eq hfirst hlast
  rw [required, hlast]
  dsimp only
  cases h with
  | settled legacy inside unsettled back =>
    have hdivision := Nat.div_add_mod' last.height p.interval
    rw [if_pos legacy]
    exact exists_requiredByInterval_inside hc hlast inside (by omega)
  | interval legacy boundary back beyond =>
    rw [if_pos legacy]
    apply exists_requiredByInterval hc hlast
    split_ifs at back <;> omega
  | window averaged back beyond =>
    rw [if_neg (Nat.not_le.mpr averaged)]
    exact exists_requiredByWindow hw hc hlast (by omega)

/-- Older samples in front of a run leave its answer as it is. A run without an answer wants a height
below its oldest sample, reached without going below zero, and every longer run has an answer that
goes down to that height and to the start of the last sample's interval. The search for settled bits
looks at the samples of the run alone, from the last one down. -/
theorem look_back_exact (hp : p.Valid) (hc : Consecutive prior)
    (hfirst : prior.head? = some oldest) (hlast : prior.getLast? = some last) (time : Int) :
    (∀ older, Consecutive (older ++ prior) → ∀ bits, required p prior time = .ok bits →
      required p (older ++ prior) time = .ok bits) ∧
    (∀ error, required p prior time = .error error → ∃ height,
      error = .insufficientHistory height ∧ height < oldest.height ∧
      Wants p prior oldest last height ∧
      ∀ older first, Consecutive (older ++ prior) → (older ++ prior).head? = some first →
        first.height ≤ height → first.height ≤ last.height / p.interval * p.interval →
        ∃ bits, required p (older ++ prior) time = .ok bits) ∧
    (last.height ≤ p.switchHeight.toNat → (last.height + 1) % p.interval ≠ 0 →
      p.allowMinDifficulty = true → isLate p intervalGap last.time time = false →
      required p prior time =
        match prior.reverse.find? (isSettled p) with
        | some s => .ok s.bits
        | none => .error (.insufficientHistory (oldest.height - 1))) := by
  have hne : prior ≠ [] := by
    rintro rfl
    cases hlast
  refine ⟨?_, ?_, ?_⟩
  · intro older hlonger bits h
    exact required_append hlonger hne h
  · intro error h
    obtain ⟨height, rfl, hwants⟩ := wants_of_required hp.window_ne_zero hc hfirst hlast h
    refine ⟨height, rfl, hwants.lt, hwants, ?_⟩
    intro older first hlonger hhead hheight hstart
    have hlonglast : (older ++ prior).getLast? = some last := by
      rw [List.getLast?_append_of_ne_nil older hne, hlast]
    exact exists_required_of_wants hp.window_ne_zero hwants hlonger hhead hlonglast hheight hstart
  · intro hlegacy hinside hlenient hgap
    rw [required, hlast]
    dsimp only
    rw [if_pos hlegacy, requiredByInterval, if_pos hinside, hlenient, hgap, Bool.not_true,
      if_neg Bool.false_ne_true, if_neg Bool.false_ne_true, settledBits_reverse hfirst hlast]

/-- Two exceptions in a row, and the two blocks before them back to the start of the interval. -/
theorem look_back_exact_exceptions :
    let p : Params := { Params.main with allowMinDifficulty := true }
    let oldest : Sample := ⟨242, 1600000120, p.limitBits, 1600000120⟩
    let last : Sample := ⟨243, 1600000180, p.limitBits, 1600000180⟩
    let older : List Sample :=
      [⟨240, 1600000000, ⟨0x1c03fc00⟩, 1600000000⟩, ⟨241, 1600000060, p.limitBits, 1600000060⟩]
    p.Valid ∧ Consecutive [oldest, last] ∧ Consecutive (older ++ [oldest, last]) ∧
      required p [oldest, last] 1600000240 = .error (.insufficientHistory 241) ∧
      ∃ bits, required p (older ++ [oldest, last]) 1600000240 = .ok bits := by
  intro p oldest last older
  have hp : p.Valid := by decide +kernel
  have hc : Consecutive [oldest, last] := by simp [Consecutive, oldest, last]
  have hlonger : Consecutive (older ++ [oldest, last]) := by
    simp [Consecutive, older, oldest, last]
  have herror : required p [oldest, last] 1600000240 = .error (.insufficientHistory 241) := by
    decide +kernel
  obtain ⟨-, hwants, -⟩ := look_back_exact hp hc rfl rfl 1600000240
  obtain ⟨height, heq, -, -, henough⟩ := hwants _ herror
  cases heq
  exact ⟨hp, hc, hlonger, herror, henough older _ hlonger rfl (by decide) (by decide)⟩

end HeaderSync.Retarget
