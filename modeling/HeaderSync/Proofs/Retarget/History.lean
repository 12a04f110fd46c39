import HeaderSync.Params.Validity
import HeaderSync.Proofs.Retarget.Samples

/-!
# How much history the rules need

A rule that finds its answer in a run of samples finds the same one if the run goes further back. A
run down to the first block of the chain, or as long as both an interval and a window with one
sample more, always holds the answer.
-/

namespace HeaderSync

theorem Params.interval_pos (p : Params) : 0 < p.interval := by
  unfold interval
  split_ifs
  · exact Nat.one_pos
  · exact Nat.lt_of_lt_of_le Nat.one_pos (Nat.le_max_left 1 _)

namespace Retarget
variable {p : Params} {prior older later : List Sample} {s last first : Sample} {time : Int}
  {bits : Compact}

theorem exists_append_of_splitAt? {height : Nat} (h : splitAt? prior height = some (s, later)) :
    s.height = height ∧ ∃ before, prior = before ++ s :: later := by
  unfold splitAt? at h
  cases hhead : prior.head? with
  | none => simp [hhead] at h
  | some oldest =>
    simp only [hhead, Option.bind_eq_bind, Option.bind_some] at h
    split_ifs at h
    cases hdrop : prior.drop (height - oldest.height) with
    | nil => simp [hdrop] at h
    | cons t rest =>
      simp only [hdrop] at h
      split_ifs at h with hheight
      obtain ⟨rfl, rfl⟩ := Prod.mk.inj (Option.some.inj h)
      exact ⟨hheight, _, by rw [← hdrop, List.take_append_drop]⟩

theorem splitAt?_of_suffix {height : Nat} (hc : Consecutive (older ++ prior))
    (h : splitAt? prior height = some (s, later)) :
    splitAt? (older ++ prior) height = some (s, later) := by
  obtain ⟨rfl, before, rfl⟩ := exists_append_of_splitAt? h
  rw [← List.append_assoc] at hc ⊢
  exact splitAt?_append hc

theorem settledBits_of_stop
    (hstop : s.height = 0 ∨ s.height % p.interval = 0 ∨ s.bits ≠ p.limitBits) :
    settledBits p s older = .ok s.bits := by
  cases older with
  | nil => rw [settledBits, if_pos hstop]
  | cons t older => rw [settledBits, if_pos hstop]

theorem settledBits_append (h : settledBits p s later = .ok bits) (older : List Sample) :
    settledBits p s (later ++ older) = .ok bits := by
  induction later generalizing s with
  | nil =>
    unfold settledBits at h
    split_ifs at h with hstop
    rw [List.nil_append, settledBits_of_stop hstop, h]
  | cons t later ih =>
    rw [settledBits] at h
    rw [List.cons_append, settledBits]
    split_ifs at h ⊢
    · exact h
    · exact ih h

theorem requiredByInterval_append (hc : Consecutive (older ++ prior)) (hne : prior ≠ [])
    (h : requiredByInterval p prior last time = .ok bits) :
    requiredByInterval p (older ++ prior) last time = .ok bits := by
  unfold requiredByInterval at h ⊢
  by_cases hinside : (last.height + 1) % p.interval ≠ 0
  · rw [if_pos hinside] at h ⊢
    rw [List.dropLast_append_of_ne_nil hne, List.reverse_append]
    split_ifs at h ⊢
    · exact h
    · exact h
    · exact settledBits_append h _
  · rw [if_neg hinside] at h ⊢
    dsimp only at h ⊢
    generalize (if last.height + 1 = p.interval then p.interval - 1 else p.interval) = back at h ⊢
    cases hsplit : splitAt? prior (last.height - back) with
    | none => simp [hsplit] at h
    | some found =>
      rw [splitAt?_of_suffix hc hsplit]
      rwa [hsplit] at h

theorem requiredByWindow_append (hc : Consecutive (older ++ prior))
    (h : requiredByWindow p prior last time = .ok bits) :
    requiredByWindow p (older ++ prior) last time = .ok bits := by
  unfold requiredByWindow at h ⊢
  split_ifs at h ⊢
  · exact h
  · exact h
  · exact h
  · cases hsplit : splitAt? prior (last.height - p.window) with
    | none => simp [hsplit] at h
    | some found =>
      rw [splitAt?_of_suffix hc hsplit]
      rwa [hsplit] at h

/-- Older samples in front of a run do not change an answer that it holds. -/
theorem required_append (hc : Consecutive (older ++ prior)) (hne : prior ≠ [])
    (h : required p prior time = .ok bits) : required p (older ++ prior) time = .ok bits := by
  obtain ⟨last, hlast⟩ : ∃ last, prior.getLast? = some last :=
    ⟨_, List.getLast?_eq_some_getLast hne⟩
  have hlast' : (older ++ prior).getLast? = some last := by
    rw [List.getLast?_append_of_ne_nil older hne, hlast]
  rw [required, hlast] at h
  rw [required, hlast']
  dsimp only at h ⊢
  split_ifs at h ⊢
  · exact requiredByInterval_append hc hne h
  · exact requiredByWindow_append hc h

/-- A run of more than `n` samples reaches back by `n` heights. -/
theorem exists_splitAt? (hc : Consecutive prior) (hlast : prior.getLast? = some last) {n : Nat}
    (hn : n < prior.length) : ∃ found, splitAt? prior (last.height - n) = some found := by
  obtain ⟨before, rfl⟩ := List.getLast?_eq_some_iff.mp hlast
  rw [List.length_append, List.length_singleton] at hn
  cases n with
  | zero => exact ⟨_, splitAt?_append hc⟩
  | succ n =>
    have hlt : before.length - (n + 1) < before.length := by omega
    have hsplit : before.take (before.length - (n + 1)) ++
        before[before.length - (n + 1)] :: before.drop (before.length - (n + 1) + 1) = before := by
      rw [← List.drop_eq_getElem_cons hlt, List.take_append_drop]
    generalize hfirst : before[before.length - (n + 1)] = first at hsplit
    generalize hbetween : before.drop (before.length - (n + 1) + 1) = between at hsplit
    have hcount : between.length = n := by
      rw [← hbetween, List.length_drop]
      omega
    rw [← hsplit, List.append_assoc, List.cons_append] at hc ⊢
    have hheight : last.height = first.height + between.length + 1 :=
      Consecutive.height_eq (hc.suffix (List.suffix_append _ _))
    have hback : last.height - (n + 1) = first.height := by omega
    rw [hback]
    exact ⟨_, splitAt?_append hc⟩

/-- An interval has begun at the latest `s.height % p.interval` samples before `s`. -/
theorem exists_settledBits (hc : (s :: older).IsChain fun s t => s.height = t.height + 1)
    (hlength : s.height % p.interval ≤ older.length) :
    ∃ bits, settledBits p s older = .ok bits := by
  induction older generalizing s with
  | nil =>
    rw [List.length_nil, Nat.le_zero] at hlength
    exact ⟨s.bits, settledBits_of_stop (.inr (.inl hlength))⟩
  | cons t older ih =>
    obtain ⟨hheight, hrest⟩ := List.isChain_cons_cons.mp hc
    rw [settledBits]
    split_ifs with hstop
    · exact ⟨s.bits, rfl⟩
    · apply ih hrest
      have hinside : s.height % p.interval ≠ 0 := fun hzero => hstop (.inr (.inl hzero))
      rw [hheight, ← Nat.mod_add_mod] at hinside hlength
      have hlt : t.height % p.interval + 1 < p.interval := by
        apply Nat.lt_of_le_of_ne (Nat.mod_lt _ p.interval_pos)
        intro hend
        rw [Nat.succ_eq_add_one] at hend
        rw [hend, Nat.mod_self] at hinside
        exact hinside rfl
      rw [Nat.mod_eq_of_lt hlt, List.length_cons] at hlength
      exact Nat.le_of_succ_le_succ hlength

/-- Inside an interval a run is enough that goes down to where it began. -/
theorem exists_requiredByInterval_inside (hc : Consecutive prior)
    (hlast : prior.getLast? = some last) (hinside : (last.height + 1) % p.interval ≠ 0)
    (hlong : last.height % p.interval < prior.length) :
    ∃ bits, requiredByInterval p prior last time = .ok bits := by
  rw [requiredByInterval, if_pos hinside]
  split_ifs
  · exact ⟨_, rfl⟩
  · exact ⟨_, rfl⟩
  · apply exists_settledBits
    · obtain ⟨before, rfl⟩ := List.getLast?_eq_some_iff.mp hlast
      rw [List.dropLast_concat]
      simpa using List.isChain_reverse.mpr hc
    · rw [List.length_reverse, List.length_dropLast]
      omega

theorem exists_requiredByInterval (hc : Consecutive prior) (hlast : prior.getLast? = some last)
    (hlong : min (last.height + 1) (p.interval + 1) ≤ prior.length) :
    ∃ bits, requiredByInterval p prior last time = .ok bits := by
  by_cases hinside : (last.height + 1) % p.interval ≠ 0
  · have hmod := Nat.mod_le last.height p.interval
    have hlt := Nat.mod_lt last.height p.interval_pos
    exact exists_requiredByInterval_inside hc hlast hinside (by omega)
  · -- The interval that ends here began with or after the first block.
    have hle := Nat.le_of_dvd (Nat.succ_pos _) (Nat.dvd_of_mod_eq_zero (not_not.mp hinside))
    rw [requiredByInterval, if_neg hinside]
    dsimp only
    generalize hback : (if last.height + 1 = p.interval then p.interval - 1 else p.interval) = back
    have hbound : back ≤ last.height ∧ back ≤ p.interval := by
      rw [← hback]
      split_ifs <;> omega
    obtain ⟨found, hfound⟩ := exists_splitAt? hc hlast (n := back) (by omega)
    rw [hfound]
    exact ⟨_, rfl⟩

theorem exists_requiredByWindow (hw : p.window ≠ 0) (hc : Consecutive prior)
    (hlast : prior.getLast? = some last)
    (hlong : min (last.height + 1) (p.window + 1) ≤ prior.length) :
    ∃ bits, requiredByWindow p prior last time = .ok bits := by
  unfold requiredByWindow
  split_ifs with _ _ hcold
  · exact ⟨_, rfl⟩
  · exact ⟨_, rfl⟩
  · exact ⟨_, rfl⟩
  · obtain ⟨found, hfound⟩ := exists_splitAt? hc hlast (n := p.window) (by omega)
    rw [hfound]
    dsimp only
    rw [meanTarget, if_neg hw]
    exact ⟨_, rfl⟩

/-- A run is enough if it goes down to the first block or is longer than an interval and than a
window. -/
theorem exists_required (hw : p.window ≠ 0) (hc : Consecutive prior)
    (hlast : prior.getLast? = some last)
    (hlong : min (last.height + 1) (max (p.interval + 1) (p.window + 1)) ≤ prior.length) :
    ∃ bits, required p prior time = .ok bits := by
  rw [required, hlast]
  dsimp only
  split_ifs
  · exact exists_requiredByInterval hc hlast (by omega)
  · exact exists_requiredByWindow hw hc hlast (by omega)

end Retarget
end HeaderSync
