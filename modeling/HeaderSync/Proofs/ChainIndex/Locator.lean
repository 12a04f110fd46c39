import HeaderSync.Proofs.ChainIndex.Storage
import Mathlib.Order.Monotone.Basic
import Mathlib.Algebra.Order.Group.Nat

/-!
# How far apart the identities of a locator lie

A locator goes down one height at a time for eleven steps, then by two, and by twice as much at each
further step, until it would pass the first block, which ends it. The depth after each step has a
closed form, and the identities are those of the ancestors at these depths. Since depths grow like
powers of two, a locator is no longer than the height has binary digits, up to a constant.
-/

namespace HeaderSync.ChainIndex
attribute [local irreducible] Header.id Compact.work

/-- How far below the start the identity of a number in a locator lies. -/
def locatorDepth (n : Nat) : Nat := if n ≤ 11 then n else 2 ^ (n - 10) + 9

theorem locatorDepth_of_ge {n : Nat} (h : 10 ≤ n) : locatorDepth n = 2 ^ (n - 10) + 9 := by
  unfold locatorDepth
  split_ifs with hsmall
  · obtain rfl | rfl : n = 10 ∨ n = 11 := by omega
    · rfl
    · rfl
  · rfl

theorem locatorDepth_succ (n : Nat) : locatorDepth (n + 1) = locatorDepth n + 2 ^ (n - 10) := by
  rcases Nat.lt_or_ge n 10 with h | h
  · rw [locatorDepth, locatorDepth, if_pos (by omega), if_pos (by omega),
      Nat.sub_eq_zero_of_le h.le, pow_zero]
  · rw [locatorDepth_of_ge h, locatorDepth_of_ge (by omega), Nat.sub_add_comm h, pow_succ]
    omega

theorem locatorDepth_strictMono : StrictMono locatorDepth := by
  apply strictMono_nat_of_lt_succ
  intro n
  rw [locatorDepth_succ]
  exact Nat.lt_add_of_pos_right (Nat.two_pow_pos _)

/-- The step doubles after each identity from the eleventh on. -/
theorem locatorStep_succ (n : Nat) :
    (if 10 ≤ n then 2 * 2 ^ (n - 10) else 2 ^ (n - 10)) = 2 ^ (n + 1 - 10) := by
  split_ifs with h
  · rw [Nat.sub_add_comm h, pow_succ, Nat.mul_comm]
  · rw [Nat.sub_eq_zero_of_le (by omega), Nat.sub_eq_zero_of_le (by omega)]

variable {top n : Nat} {i : ChainIndex} {id : Digest} {e : Entry}

/-- The rest of a locator that starts at height `top`, from the identity of number `n` on. As long
as the depth stays below `top` there is an ancestor at it, and the first block comes last. -/
theorem exists_locatorFrom_eq {l : List Entry} (top n : Nat) (hl : Lineage l)
    (hle : top - locatorDepth n ≤ (l.head hl.ne_nil).height) :
    ∃ (count : Nat) (listed : List Entry), (∀ k, n ≤ k → (locatorDepth k < top ↔ k < n + count)) ∧
      locatorFrom (2 ^ (n - 10)) n (top - locatorDepth n) l = listed.map Entry.id ∧
      listed.Sublist l ∧ listed.getLast? = l.getLast? ∧
      listed.map Entry.height =
        (List.range' n count).map (fun k => top - locatorDepth k) ++ [0] := by
  induction hl generalizing n with
  | genesis h zero =>
    have hdeep : top ≤ locatorDepth n := Nat.sub_eq_zero_iff_le.mp (Nat.le_zero.mp hle)
    refine ⟨0, [Entry.genesis h], ?_, ?_, List.Sublist.refl _, rfl, rfl⟩
    · intro k hk
      have hmono := locatorDepth_strictMono.monotone hk
      omega
    · rw [Nat.sub_eq_zero_of_le hdeep]
      rfl
  | @child h parent older link rest ih =>
    have hheight : (Entry.child h parent older).height = parent.height + 1 := rfl
    rw [List.head_cons, hheight] at hle
    have hmore : (Entry.child h parent older :: parent :: older).getLast? =
        (parent :: older).getLast? := List.getLast?_cons_cons
    rcases Nat.lt_or_eq_of_le hle with hbelow | hhere
    · -- The entry is skipped, and its parent is still high enough.
      obtain ⟨count, listed, hcount, hids, hsub, hlast, hheights⟩ :=
        ih n (Nat.le_of_lt_succ hbelow)
      refine ⟨count, listed, hcount, ?_, hsub.cons _, hlast.trans hmore.symm, hheights⟩
      rw [locatorFrom, hheight, if_pos (Nat.ne_of_gt hbelow), hids]
    · have hnext : top - locatorDepth (n + 1) = top - locatorDepth n - 2 ^ (n - 10) := by
        rw [locatorDepth_succ, Nat.sub_sub]
      have hpos := Nat.two_pow_pos (n - 10)
      obtain ⟨count, listed, hcount, hids, hsub, hlast, hheights⟩ := ih (n + 1) (by
        rw [List.head_cons]
        omega)
      refine ⟨count + 1, Entry.child h parent older :: listed, ?_, ?_, hsub.cons_cons _, ?_, ?_⟩
      · intro k hk
        rcases Nat.eq_or_lt_of_le hk with rfl | hk
        · omega
        · rw [hcount k hk]
          omega
      · rw [locatorFrom, hheight, if_neg (by omega), if_neg (by omega), locatorStep_succ, ← hnext,
          hids]
        rfl
      · obtain ⟨x, hx⟩ := Option.ne_none_iff_exists'.mp
          (mt List.getLast?_eq_none_iff.mp rest.ne_nil)
        rw [hmore, List.getLast?_cons, hlast, hx]
        rfl
      · rw [List.map_cons, hheights, List.range'_succ, List.map_cons, hheight, hhere]
        rfl

theorem count_le_log2 {count : Nat} (h : ∀ k, locatorDepth k < top ↔ k < count) :
    count ≤ 12 + (top + 1).log2 := by
  have hdeep := locatorDepth_of_ge (n := 12 + (top + 1).log2) (by omega)
  have hlt := Nat.lt_log2_self (n := top + 1)
  rw [show 12 + (top + 1).log2 - 10 = (top + 1).log2 + 1 + 1 by omega, pow_succ] at hdeep
  have hnot := mt (h (12 + (top + 1).log2)).mpr (by omega)
  omega

/-- Entries of one list of ancestors differ in their identities. -/
theorem Stored.nodup_ancestors (hi : i.Stored) (hl : Lineage (i.ancestors id)) :
    ((i.ancestors id).map Entry.id).Nodup := by
  apply List.Nodup.map_on _ hl.nodup_height.of_map
  intro a ha b hb hid
  have hknown := hi.known a (hi.mem_entries id a ha)
  rw [hid, hi.known b (hi.mem_entries id b hb)] at hknown
  exact (Option.some.inj hknown).symm

/-- A locator lists the entry itself, the ancestors at the depths in the closed form that are less
than its height, and the first block at last. -/
theorem locator_shape (hi : i.Built) (he : i.get? id = some e) :
    ∃ (count : Nat) (listed : List Entry),
      (∀ k, locatorDepth k < e.height ↔ k < count) ∧
      i.locator id = listed.map Entry.id ∧ listed.Sublist (i.ancestors id) ∧
      listed.map Entry.height =
        (List.range count).map (fun k => e.height - locatorDepth k) ++ [0] ∧
      listed.Pairwise (fun a b => b.height < a.height) ∧ (i.locator id).Nodup ∧
      (i.locator id).head? = some id ∧ listed.getLast? = i.genesis? ∧
      (i.locator id).length ≤ 13 + (e.height + 1).log2 := by
  obtain ⟨older, ha⟩ := get?_eq_some.mp he
  obtain ⟨rfl, hl⟩ := hi.wellFormed.lineage ha
  obtain ⟨count, listed, hcount, hids, hsub, hlast, hheights⟩ :=
    exists_locatorFrom_eq e.height 0 hl (Nat.sub_le _ _)
  have hlocator : i.locator e.id = listed.map Entry.id := by
    rw [locator, he, ha]
    exact hids
  have hlength : listed.length = count + 1 := by
    rw [← List.length_map (f := Entry.height), hheights]
    simp
  have hcount' : ∀ k, locatorDepth k < e.height ↔ k < count := fun k => by
    rw [hcount k (Nat.zero_le k), Nat.zero_add]
  obtain ⟨m, hm⟩ := Array.mem_iff_getElem?.mp (hi.stored.mem_entries e.id e (by simp [ha]))
  have hfirst := hi.represented.getLast?_ancestors hm
  rw [← ha] at hl hsub hlast
  refine ⟨count, listed, hcount', hlocator, hsub, ?_, ?_, ?_, ?_, hlast.trans hfirst, ?_⟩
  · rw [hheights, List.range_eq_range']
  · have hsorted : ((i.ancestors e.id).map Entry.height).Pairwise (fun a b => b < a) := by
      rw [hl.map_height, List.pairwise_reverse]
      exact List.pairwise_lt_range
    exact (List.pairwise_map.mp hsorted).sublist hsub
  · rw [hlocator]
    exact (hi.stored.nodup_ancestors hl).sublist (hsub.map Entry.id)
  · rw [locator, he, ha]
    dsimp only
    rw [locatorFrom, if_neg (not_not.mpr rfl)]
    by_cases hzero : e.height = 0
    · rw [if_pos hzero]
      rfl
    · rw [if_neg hzero]
      rfl
  · rw [hlocator, List.length_map, hlength]
    have hlog := count_le_log2 hcount'
    omega

example : (List.range 17).map (fun k => 100 - locatorDepth k) ++ [0] =
    [100, 99, 98, 97, 96, 95, 94, 93, 92, 91, 90, 89, 87, 83, 75, 59, 27, 0] := by decide

/-- At height fourteen, one ancestor is passed over. -/
theorem locator_shape_doubled :
    ∃ (i : ChainIndex) (e : Entry) (listed : List Entry),
      i.Built ∧ i.get? e.id = some e ∧ e.height = 14 ∧ i.locator e.id = listed.map Entry.id ∧
        listed.Sublist (i.ancestors e.id) ∧
        listed.map Entry.height = [14, 13, 12, 11, 10, 9, 8, 7, 6, 5, 4, 3, 1, 0] ∧
        (i.locator e.id).head? = some e.id ∧ listed.getLast? = i.genesis? ∧
        (i.locator e.id).Nodup ∧ (i.locator e.id).length ≤ 16 := by
  obtain ⟨i, ds, -, hi, hfirst, hds, hcount, -⟩ := exists_seconds
  have he := get?_of_descends (get?_eq_some.mpr ⟨[], hfirst⟩) hds
  have hancestors := hi.wellFormed.ancestors_of_descends hds
  change i.ancestors (Entry.genesis _).id = _ at hfirst
  rw [hfirst] at hancestors
  generalize ds.getLastD _ = e at he hancestors
  have hheight : e.height = 14 := by
    obtain ⟨older, ha⟩ := get?_eq_some.mp he
    have hlength : (e :: older).length = e.height + 1 := (hi.wellFormed.lineage ha).2.length_eq
    rw [← ha, hancestors, List.length_append, List.length_reverse, hcount] at hlength
    exact (Nat.succ.inj hlength).symm
  obtain ⟨count, listed, hdepth, hlocator, hsub, hheights, -, hnodup, hhead, hlast, hlength⟩ :=
    locator_shape hi he
  rw [hheight] at hdepth hheights hlength
  have hthirteen : ¬13 < count := mt (hdepth 13).mpr (by decide)
  have htwelve : 12 < count := (hdepth 12).mp (by decide)
  obtain rfl : count = 13 := by omega
  exact ⟨i, e, listed, hi, he, hheight, hlocator, hsub, hheights, hhead, hlast, hnodup, hlength⟩

end HeaderSync.ChainIndex
