import HeaderSync.Proofs.Session.SecondPass

/-!
# What each pass says about a header

The verdict on a header is a function of the start and of the headers before it: the first condition
that the header fails, in the order in which a pass tests them. No cursor, window or queue is
carried along; the window is seeded with the whole past, and the bits are counted. In a state that
has accepted the headers before, one step of a pass gives this verdict.
-/

namespace HeaderSync
attribute [local irreducible] Header.id Compact.work commitmentBit Window.accept

def Header.stamp (h : Header) : Stamp := ⟨h.bits, h.seconds⟩

namespace Rules

/-- Whether `h` links to the last header before it, and whether the window over all of them permits
its bits. -/
def linkVerdict (r : Rules) (s : ChainStart) (before : List Header) (h : Header) :
    Except Retarget.Error (Option AbortCause) :=
  if h.parent ≠ tipId s.id before then .ok (some .nonContinuousChain)
  else do
    let window := Window.ofHistory r.params (s.history ++ before.map Header.stamp)
    let last := (before.map Header.stamp).getLastD ⟨s.header.bits, s.header.seconds⟩
    if ← window.permits r.params last h.stamp (s.height + before.length + 1) then return none
    else return some .invalidDifficultyTransition

/-- In the first pass the bits of all commitment heights must fit. -/
def measuringOffence? (r : Rules) (s : ChainStart) (before : List Header) : Option AbortCause :=
  if r.commitsAt (s.height + before.length + 1) ∧
      r.maxCommitments < r.committedHeights s.height (before.length + 1) then some .commitmentOverrun
  else none

/-- In the second pass, until the work is there again, a header at a commitment height must have a
bit left for it, and that is the bit of the header that the first pass measured at this height. -/
def verifyingOffence? (r : Rules) (s : ChainStart) (measured before : List Header) (h : Header) :
    Option AbortCause :=
  if r.commitsAt (s.height + before.length + 1) ∧
      totalWork s.work (before ++ [h]) < r.minWork then
    if (r.storedBits s.height measured s.height).length <
        r.committedHeights s.height (before.length + 1) then some .commitmentOverrun
    else if measured[before.length]?.map (fun m => r.commitment m.id) ≠ some (r.commitment h.id) then
      some .commitmentMismatch
    else none
  else none

def measuringVerdict (r : Rules) (s : ChainStart) (before : List Header) (h : Header) :
    Except Retarget.Error (Option AbortCause) :=
  (r.linkVerdict s before h).map fun refusal => refusal.or (r.measuringOffence? s before)

def verifyingVerdict (r : Rules) (s : ChainStart) (measured before : List Header) (h : Header) :
    Except Retarget.Error (Option AbortCause) :=
  (r.linkVerdict s before h).map fun refusal => refusal.or (r.verifyingOffence? s measured before h)

/-- A short message is no header's fault. -/
theorem linkVerdict_ne (r : Rules) (s : ChainStart) (before : List Header) (h : Header)
    {own : Option AbortCause} (hown : own ≠ some .incompleteMessage) :
    (r.linkVerdict s before h).map (fun refusal => refusal.or own) ≠
      .ok (some .incompleteMessage) := by
  unfold linkVerdict
  split_ifs
  · nofun
  · dsimp only
    cases Window.permits r.params _ _ _ _ with
    | error e => nofun
    | ok permitted =>
      cases permitted with
      | false => nofun
      | true =>
        intro heq
        exact hown (Except.ok.inj heq)

theorem cause_of_measuringOffence? {r : Rules} {s : ChainStart} {before : List Header}
    {cause : AbortCause} (hc : r.measuringOffence? s before = some cause) :
    cause = .commitmentOverrun := by
  unfold measuringOffence? at hc
  split_ifs at hc
  exact (Option.some.inj hc).symm

theorem measuringVerdict_ne (r : Rules) (s : ChainStart) (before : List Header) (h : Header) :
    r.measuringVerdict s before h ≠ .ok (some .incompleteMessage) := by
  apply linkVerdict_ne
  intro hc
  cases cause_of_measuringOffence? hc

theorem verifyingVerdict_ne (r : Rules) (s : ChainStart) (measured before : List Header)
    (h : Header) : r.verifyingVerdict s measured before h ≠ .ok (some .incompleteMessage) := by
  apply linkVerdict_ne
  unfold verifyingOffence?
  split_ifs <;> nofun

end Rules

namespace Cursor
variable {p : Params}

theorem window_follow (c : Cursor) (hs : List Header) :
    (c.follow p hs).window = (hs.map Header.stamp).foldl (Window.accept p) c.window := by
  induction hs generalizing c with
  | nil => rfl
  | cons h rest ih => exact ih (c.advance p h)

theorem stamp_follow (c : Cursor) (hs : List Header) :
    (c.follow p hs).stamp = (hs.map Header.stamp).getLastD c.stamp := by
  induction hs generalizing c with
  | nil => rfl
  | cons h rest ih =>
    rw [List.map_cons, List.getLastD_cons]
    exact ih (c.advance p h)

theorem refusal?_follow (r : Rules) (s : ChainStart) (before : List Header) (h : Header) :
    ((start r.params s).follow r.params before).refusal? r.params h = r.linkVerdict s before h := by
  unfold refusal? Rules.linkVerdict
  rw [id_follow, window_follow, stamp_follow, height_follow, Window.ofHistory, List.foldl_append]
  rfl

end Cursor

variable {r : Rules} {s : ChainStart}

theorem Presync.Tracks.store_verdict {hs : List Header} {p : Presync} (ht : p.Tracks r s hs)
    (h : Header) : (p.store r h).2 = r.measuringOffence? s hs := by
  have hsize : p.commitments.size = r.committedHeights s.height hs.length := by
    rw [← Queue.length_toList, ht.toList_eq, r.length_storedBits]
  unfold store Rules.measuringOffence?
  rw [ht.height_eq, hsize]
  by_cases hc : r.commitsAt (s.height + hs.length + 1) = true
  · have hsucc := r.committedHeights_succ s.height hs.length
    rw [if_pos hc] at hsucc
    by_cases hm : r.maxCommitments ≤ r.committedHeights s.height hs.length
    · have hlt : r.maxCommitments < r.committedHeights s.height (hs.length + 1) := by omega
      simp [hc, hm, hlt]
    · have hle : ¬ r.maxCommitments < r.committedHeights s.height (hs.length + 1) := by omega
      simp [hc, hm, hle]
  · simp [hc]

theorem Presync.Tracks.step_verdict {hs : List Header} {p : Presync} (ht : p.Tracks r s hs)
    (h : Header) : (p.step r h).map Prod.snd = r.measuringVerdict s hs h := by
  unfold Presync.step Rules.measuringVerdict
  rw [ht.cursor_eq, Cursor.refusal?_follow]
  cases r.linkVerdict s hs h with
  | error e => rfl
  | ok refusal =>
    cases refusal with
    | some cause => rfl
    | none => exact congrArg Except.ok (ht.store_verdict h)

namespace Redownload.Tracks
variable {measured released hs : List Header} {d : Redownload}

/-- While bits are compared, the next one is that of the first pass's header at this height. -/
theorem pop?_verdict (ht : d.Tracks r s measured hs released) (h : Header)
    (hw : totalWork s.work (hs ++ [h]) < r.minWork)
    (hc : r.commitsAt (s.height + hs.length + 1) = true) :
    d.commitments.pop?.map Prod.fst = measured[hs.length]?.map fun m => r.commitment m.id := by
  have hbelow : d.isReleasing r = false := by
    rw [Bool.eq_false_iff, ne_eq, ht.isReleasing_iff]
    intro hle
    exact Nat.lt_irrefl _ (Nat.lt_of_lt_of_le hw
      (Nat.le_trans hle (totalWork_mono s.work (List.prefix_append hs [h]))))
  have hbits := ht.toList_eq (.inr hbelow)
  rw [r.storedBits_succ, if_pos hc] at hbits
  cases hm : measured[hs.length]? with
  | none =>
    rw [hm, r.storedBits_of_length_le
      (Nat.le_succ_of_le (Nat.add_le_add_left (List.getElem?_eq_none_iff.mp hm) _))] at hbits
    cases hq : d.commitments.pop? with
    | none => rfl
    | some popped =>
      rw [Queue.toList_of_pop? hq] at hbits
      cases hbits
  | some m =>
    rw [hm] at hbits
    obtain ⟨rest, hrest, -⟩ := Queue.exists_pop?_of_toList hbits
    rw [hrest]
    rfl

theorem store_verdict (ht : d.Tracks r s measured hs released) (h : Header) :
    (d.store r h).2 = r.verifyingOffence? s measured hs h := by
  have hweigh : (d.weigh h).isReleasing r = true ↔
      r.minWork ≤ totalWork s.work (hs ++ [h]) := by
    unfold isReleasing weigh
    rw [decide_eq_true_iff, ht.cursor_eq, Cursor.work_follow, totalWork_append]
    rfl
  unfold store Rules.verifyingOffence?
  rw [ht.height_eq]
  by_cases hc : r.commitsAt (s.height + hs.length + 1) = true ∧
      totalWork s.work (hs ++ [h]) < r.minWork
  · obtain ⟨hcommit, hw⟩ := hc
    have hbelow : (d.weigh h).isReleasing r = false := by
      rw [Bool.eq_false_iff, ne_eq, hweigh]
      exact Nat.not_le_of_lt hw
    have hpop := ht.pop?_verdict h hw hcommit
    have hlen := r.length_storedBits_lt_iff measured hcommit
    rw [hbelow, hcommit, if_neg (by simp), if_pos ⟨rfl, hw⟩]
    cases hm : measured[hs.length]? with
    | none =>
      rw [hm, Option.map_none, Option.map_eq_none_iff] at hpop
      rw [if_pos (hlen.mpr (List.getElem?_eq_none_iff.mp hm)), hpop]
    | some m =>
      have hlong : ¬ measured.length ≤ hs.length := by
        intro hle
        rw [List.getElem?_eq_none_iff.mpr hle] at hm
        cases hm
      rw [hm, Option.map_some, Option.map_eq_some_iff] at hpop
      obtain ⟨⟨bit, rest⟩, hq, rfl⟩ := hpop
      rw [if_neg (mt hlen.mp hlong), hq]
      by_cases hbit : r.commitment h.id = r.commitment m.id
      · simp [hbit]
      · simp [hbit, Ne.symm hbit]
  · rw [if_neg hc, if_pos]
    by_cases hcommit : r.commitsAt (s.height + hs.length + 1) = true
    · have hw : r.minWork ≤ totalWork s.work (hs ++ [h]) :=
        Nat.le_of_not_lt fun hlt => hc ⟨hcommit, hlt⟩
      simp [hweigh.mpr hw]
    · simp [hcommit]

theorem step_verdict (ht : d.Tracks r s measured hs released) (h : Header) :
    (d.step r h).map Prod.snd = r.verifyingVerdict s measured hs h := by
  unfold Redownload.step Rules.verifyingVerdict
  rw [ht.cursor_eq, Cursor.refusal?_follow]
  cases r.linkVerdict s hs h with
  | error e => rfl
  | ok refusal =>
    cases refusal with
    | some cause => rfl
    | none => exact congrArg Except.ok (ht.store_verdict h)

end Redownload.Tracks
end HeaderSync
