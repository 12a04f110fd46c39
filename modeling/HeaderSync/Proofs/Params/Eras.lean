import HeaderSync.Proofs.Params.Requirements

/-!
# Eras

An era is looked up from the first row of the table on. With valid parameters every height has one,
and its bounds are a part and a multiple of the ideal timespan, which lies between them.
-/

namespace HeaderSync.Params
variable {p : Params} {height : Nat} {era : Era}

/-- Whether an era holds at a height: it is the first one that lies below, or the last of all where
none does. -/
def Governs (p : Params) (height : Nat) (era : Era) : Prop :=
  (∃ before after, p.eras = before ++ era :: after ∧ era.aboveHeight.toNat < height ∧
    ∀ e ∈ before, height ≤ e.aboveHeight.toNat) ∨
  (∀ e ∈ p.eras, height ≤ e.aboveHeight.toNat) ∧ p.eras.getLast? = some era

theorem eraAt?_eq_some_iff : p.eraAt? height = some era ↔ p.Governs height era := by
  unfold eraAt? Governs
  simp only [Option.orElse_eq_orElse, Option.orElse_eq_or, Option.or_eq_some_iff,
    List.find?_eq_some_iff_append, List.find?_eq_none, decide_eq_true_eq, Bool.not_eq_true',
    decide_eq_false_iff_not, Nat.not_lt]
  constructor
  · rintro (⟨hbelow, before, after, heras, hbefore⟩ | hlast)
    · exact .inl ⟨before, after, heras, hbelow, hbefore⟩
    · exact .inr hlast
  · rintro (⟨before, after, heras, hbelow, hbefore⟩ | hlast)
    · exact .inl ⟨hbelow, before, after, heras, hbefore⟩
    · exact .inr hlast

theorem Governs.mem (h : p.Governs height era) : era ∈ p.eras := by
  obtain ⟨before, after, heras, -, -⟩ | ⟨-, hlast⟩ := h
  · rw [heras]
    exact List.mem_append_right before List.mem_cons_self
  · exact List.mem_of_getLast? hlast

theorem Governs.iff_eq (h : p.Governs height era) (other : Era) :
    p.Governs height other ↔ other = era := by
  rw [← eraAt?_eq_some_iff] at h ⊢
  rw [h, Option.some_inj, eq_comm]

namespace Valid

theorem exists_governs (hp : p.Valid) (height : Nat) : ∃ era, p.Governs height era := by
  cases hera : p.eraAt? height with
  | some era => exact ⟨era, eraAt?_eq_some_iff.mp hera⟩
  | none =>
    have hne := (valid_iff.mp hp).eras_ne_nil
    have hlast := List.getLast?_eq_some_getLast hne
    unfold eraAt? at hera
    simp [hlast] at hera

/-- The least timespan is the floor of a part of the ideal one. -/
theorem legacyBounds_fst (hp : p.Valid) (h : p.Governs height era) : (p.legacyBounds height).1 =
    ↑(p.targetTimespan.toInt.toNat / era.minDivisor.toInt.toNat) := by
  have hpos := hp.targetTimespan_pos
  have hdivisor := ((valid_iff.mp hp).eras_pos era h.mem).1
  rw [legacyBounds, eraAt?_eq_some_iff.mpr h]
  dsimp only
  rw [Int.tdiv_eq_ediv_of_nonneg (Int.le_of_lt hpos), Int.natCast_ediv,
    Int.toNat_of_nonneg (Int.le_of_lt hpos), Int.toNat_of_nonneg (Int.le_of_lt hdivisor)]
  congr 1
  omega

/-- The greatest timespan is a multiple of the ideal one, as far as 64 bits reach. -/
theorem legacyBounds_snd (hp : p.Valid) (h : p.Governs height era) : (p.legacyBounds height).2 =
    min (p.targetTimespan.toInt * era.maxMultiplier.toInt) 0x7fffffffffffffff := by
  have hmul := Int.mul_pos hp.targetTimespan_pos ((valid_iff.mp hp).eras_pos era h.mem).2
  rw [legacyBounds, eraAt?_eq_some_iff.mpr h]
  dsimp only
  unfold clampSeconds
  omega

theorem legacyBounds_fst_nonneg (hp : p.Valid) (height : Nat) : 0 ≤ (p.legacyBounds height).1 := by
  obtain ⟨era, h⟩ := hp.exists_governs height
  rw [hp.legacyBounds_fst h]
  exact Int.natCast_nonneg _

theorem legacyBounds_fst_le (hp : p.Valid) (height : Nat) :
    (p.legacyBounds height).1 ≤ p.targetTimespan.toInt := by
  obtain ⟨era, h⟩ := hp.exists_governs height
  have hpos := hp.targetTimespan_pos
  have hle := Nat.div_le_self p.targetTimespan.toInt.toNat era.minDivisor.toInt.toNat
  rw [hp.legacyBounds_fst h]
  omega

theorem le_legacyBounds_snd (hp : p.Valid) (height : Nat) :
    p.targetTimespan.toInt ≤ (p.legacyBounds height).2 := by
  obtain ⟨era, h⟩ := hp.exists_governs height
  have hlt := p.targetTimespan.toInt_lt
  have hmul : p.targetTimespan.toInt * 1 ≤ p.targetTimespan.toInt * era.maxMultiplier.toInt := by
    apply Int.mul_le_mul_of_nonneg_left _ (Int.le_of_lt hp.targetTimespan_pos)
    exact ((valid_iff.mp hp).eras_pos era h.mem).2
  rw [hp.legacyBounds_snd h]
  omega

end Valid
end HeaderSync.Params
