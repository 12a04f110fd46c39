import HeaderSync.Proofs.ChainIndex.WindowAgreement
import HeaderSync.Proofs.Time.Median

/-!
# How fast a branch can grow

By the time rule every header is later than the median time of its parent. Along a branch that
keeps the rule the median times never fall, and six headers raise them by a second, since these six
are then most of the times behind the median. So a branch whose times are bounded cannot be longer
than six headers a second, counted from the median time that it started at.
-/

namespace HeaderSync
attribute [local irreducible] Header.id Compact.work

/-- Whether each of the entries `ds` is later than the median time of the one before it, the first
one later than that of `start`. -/
def OnTime (start : Entry) (ds : List Entry) : Prop :=
  (start :: ds).IsChain fun parent e => parent.medianTime < e.header.seconds

theorem onTime_cons {start e : Entry} {rest : List Entry} :
    OnTime start (e :: rest) ↔ start.medianTime < e.header.seconds ∧ OnTime e rest :=
  List.isChain_cons_cons

theorem onTime_append {start : Entry} {xs ys : List Entry} :
    OnTime start (xs ++ ys) ↔ OnTime start xs ∧ OnTime (xs.getLastD start) ys := by
  induction xs generalizing start with
  | nil => exact (and_iff_right (List.IsChain.singleton _)).symm
  | cons e xs ih => rw [List.cons_append, onTime_cons, onTime_cons, ih, and_assoc, List.getLastD_cons]

namespace Lineage
variable {e parent : Entry} {older : List Entry}

theorem medianTime_eq (hl : Lineage (e :: older)) :
    e.medianTime = newestMedian ((e :: older).map (·.header.seconds)) :=
  (List.cons.inj hl.map_medianTime).1

theorem medianTime_nonneg (hl : Lineage (e :: older)) : 0 ≤ e.medianTime := by
  rw [hl.medianTime_eq]
  apply newestMedian_nonneg (by simp)
  intro t ht
  obtain ⟨entry, -, rfl⟩ := List.mem_map.mp ht
  exact Int.natCast_nonneg _

/-- A header that keeps the time rule does not lower the median time. -/
theorem medianTime_le (hl : Lineage (e :: parent :: older))
    (ht : parent.medianTime < e.header.seconds) : parent.medianTime ≤ e.medianTime := by
  have hsplit : Lineage ([e] ++ parent :: older) := hl
  have hparent := hsplit.of_append (List.cons_ne_nil parent older)
  rw [hparent.medianTime_eq] at ht ⊢
  rw [hl.medianTime_eq, List.map_cons]
  exact newestMedian_le_cons (by simp) (Int.le_of_lt ht)

end Lineage

namespace ChainIndex
variable {i : ChainIndex} {start : Entry} {ds six : List Entry}

namespace WellFormed

/-- The median times along a branch that keeps the time rule. -/
theorem isChain_medianTime (hi : i.WellFormed) (hds : i.Descends start ds) (ht : OnTime start ds) :
    (start :: ds).IsChain fun parent e => parent.medianTime ≤ e.medianTime := by
  induction ds generalizing start with
  | nil => exact .singleton start
  | cons e rest ih =>
    obtain ⟨older, ha⟩ := hds.exists_ancestors
    obtain ⟨hlater, hrest⟩ := onTime_cons.mp ht
    apply List.isChain_cons_cons.mpr
    exact ⟨(hi.lineage ha).2.medianTime_le hlater, ih hds.2.2 hrest⟩

/-- No time of the branch falls back to the median time that the branch started at. -/
theorem medianTime_lt_seconds (hi : i.WellFormed) (hds : i.Descends start ds)
    (ht : OnTime start ds) : ∀ e ∈ ds, start.medianTime < e.header.seconds := by
  induction ds generalizing start with
  | nil =>
    intro e he
    exact absurd he List.not_mem_nil
  | cons first rest ih =>
    intro e he
    obtain ⟨hlater, hrest⟩ := onTime_cons.mp ht
    rcases List.mem_cons.mp he with rfl | he
    · exact hlater
    · have hfirst := (List.isChain_cons_cons.mp (hi.isChain_medianTime hds ht)).1
      have hnext := ih hds.2.2 hrest e he
      omega

/-- Headers that are each later than all their ancestors keep the time rule. -/
theorem onTime_of_later (hi : i.WellFormed) (hs : i.get? start.id = some start)
    (hds : i.Descends start ds)
    (hlater : ((i.ancestors (ds.getLastD start).id).map (·.header.seconds)).Pairwise (· > ·)) :
    OnTime start ds := by
  induction ds generalizing start with
  | nil => exact .singleton start
  | cons e rest ih =>
    obtain ⟨older, ha⟩ := hds.exists_ancestors
    rw [List.getLastD_cons] at hlater
    refine onTime_cons.mpr ⟨?_, ih hds.1 hds.2.2 hlater⟩
    rw [hi.ancestors_of_descends hds.2.2, ha, List.map_append] at hlater
    have hafter := (List.pairwise_cons.mp (List.pairwise_append.mp hlater).2.1).1
    have hl := (hi.lineage (hi.tail ha)).2
    have hmedian : start.medianTime ≤ e.header.seconds - 1 := by
      rw [hl.medianTime_eq]
      apply newestMedian_le (by simp)
      intro t ht
      exact Int.le_sub_one_of_lt (hafter t ht)
    omega

/-- Six headers that keep the time rule raise the median time. -/
theorem medianTime_lt_of_six (hi : i.WellFormed) (hs : i.get? start.id = some start)
    (hds : i.Descends start six) (ht : OnTime start six) (hlength : six.length = 6) :
    start.medianTime < (six.getLastD start).medianTime := by
  obtain ⟨older, ha⟩ := get?_eq_some.mp (get?_of_descends hs hds)
  have hancestors := hi.ancestors_of_descends hds
  rw [ha] at hancestors
  rw [(hi.lineage ha).2.medianTime_eq, hancestors, List.map_append]
  apply lt_newestMedian_append
  · rw [List.length_map, List.length_reverse, hlength]
  · intro t hmem
    obtain ⟨e, he, rfl⟩ := List.mem_map.mp hmem
    exact hi.medianTime_lt_seconds hds ht e (List.mem_reverse.mp he)

/-- A branch with times up to `latest` has at most six headers for each second that is left. -/
theorem length_le_of_onTime (hi : i.WellFormed) (hs : i.get? start.id = some start)
    (hds : i.Descends start ds) (ht : OnTime start ds) {latest : Int}
    (hlatest : ∀ e ∈ ds, e.header.seconds ≤ latest) :
    (ds.length : Int) ≤ 6 * max 0 (latest - start.medianTime) := by
  induction hn : ds.length using Nat.strong_induction_on generalizing start ds with
  | _ n ih =>
    subst hn
    have hfirst : ds ≠ [] → start.medianTime < latest := by
      intro hne
      obtain ⟨e, rest, rfl⟩ := List.exists_cons_of_ne_nil hne
      have hlater := (onTime_cons.mp ht).1
      have hearly := hlatest e List.mem_cons_self
      omega
    by_cases hshort : ds.length ≤ 6
    · by_cases hnil : ds = []
      · rw [hnil, List.length_nil]
        omega
      · have := hfirst hnil
        omega
    · -- The first six headers use up a second, and the others grow from there.
      obtain ⟨six, rest, hsplit, hsix⟩ : ∃ six rest, ds = six ++ rest ∧ six.length = 6 :=
        ⟨ds.take 6, ds.drop 6, (List.take_append_drop 6 ds).symm,
          by rw [List.length_take]; omega⟩
      rw [hsplit] at hds ht hlatest
      obtain ⟨hdsix, hdrest⟩ := descends_append.mp hds
      obtain ⟨htsix, htrest⟩ := onTime_append.mp ht
      have hraised := hi.medianTime_lt_of_six hs hdsix htsix hsix
      have htotal : ds.length = 6 + rest.length := by rw [hsplit, List.length_append, hsix]
      have hrest := ih rest.length (by omega) (get?_of_descends hs hdsix) hdrest htrest
        (fun e he => hlatest e (List.mem_append_right six he)) rfl
      omega

end WellFormed
end ChainIndex

/-- The number of headers that time allows above a median time, up to the latest time. -/
def headerBudget (median latest : Int) : Nat :=
  min (6 * (latest - median).toNat) 0xffffffffffffffff

/-- Saturated differences change nothing in the bound: a clock so far off leaves either no time at
all or more than the number of headers can express. -/
theorem Rules.maxCommitments_start (c : ChainStart) (hc : 0 ≤ c.medianTime) (minWork : UInt256)
    (params : Params) (config : Config) (now : Int64) (words : List UInt64) (key : Digest) :
    (Rules.start c minWork params config now.toInt words key).maxCommitments =
      headerBudget c.medianTime (now.toInt + config.maxFutureTime.toInt) /
        max 1 config.commitmentPeriod.toNat := by
  have hnow := now.toInt_lt
  have hnow' := now.le_toInt
  have hfuture := config.maxFutureTime.toInt_lt
  have hfuture' := config.maxFutureTime.le_toInt
  apply congrArg (· / max 1 config.commitmentPeriod.toNat)
  unfold headerBudget clampSeconds
  omega

namespace ChainIndex
variable {i : ChainIndex} {id : Digest} {start : Entry} {ds : List Entry}

theorem chainStart?_of_get? (hs : i.get? id = some start) {count : Nat} {c : ChainStart}
    (hc : i.chainStart? id count = some c) :
    c.id = start.id ∧ c.height = start.height ∧ c.medianTime = start.medianTime := by
  rw [chainStart?, hs] at hc
  cases hc
  exact ⟨rfl, rfl, rfl⟩

theorem WellFormed.medianTime_nonneg (hi : i.WellFormed) (hs : i.get? id = some start) :
    0 ≤ start.medianTime := by
  obtain ⟨older, ha⟩ := get?_eq_some.mp hs
  exact (hi.lineage ha).2.medianTime_nonneg

/-- Times fit into 32 bits, so the bound on the number of headers is never cut off. -/
theorem WellFormed.length_le_headerBudget (hi : i.WellFormed)
    (hs : i.get? start.id = some start) (hds : i.Descends start ds) (ht : OnTime start ds)
    {latest : Int} (hlatest : ∀ e ∈ ds, e.header.seconds ≤ latest) :
    ds.length ≤ headerBudget start.medianTime latest := by
  have hword : ∀ e ∈ ds, e.header.seconds ≤ 0xffffffff := by
    intro e _
    have htime := e.header.time.toNat_lt
    unfold Header.seconds
    omega
  have hbudget := hi.length_le_of_onTime hs hds ht hlatest
  have hfew := hi.length_le_of_onTime hs hds ht hword
  have hnonneg := hi.medianTime_nonneg hs
  unfold headerBudget
  omega

/-- A first block and a child one second later. -/
theorem built_second_later :
    let g : Header := ⟨1, .zero, .zero, 1700000000, ⟨0x200f0f0f⟩, 0⟩
    let h : Header := ⟨4, g.id, .zero, 1700000001, ⟨0x200f0f0f⟩, 0⟩
    let start : Entry := .genesis g
    let e : Entry := .child h start []
    let i : ChainIndex := (ChainIndex.empty.add start []).add e [start]
    i.Built ∧ i.get? g.id = some start ∧ i.Descends start [e] ∧ OnTime start [e] ∧
      ∀ x ∈ [e], x.header.seconds ≤ 1700000001 := by
  intro g h start e i
  have hid := Header.numbers_id g rfl
  have hne : h.id ≠ g.id :=
    Header.id_ne_of_numbers (Header.numbers_id h hid) hid (by decide +kernel)
  obtain ⟨hi, hs, hds⟩ := built_pair (g := g) (h := h) (by decide) rfl hne
  refine ⟨hi, hs, hds, onTime_cons.mpr ⟨?_, .singleton e⟩, ?_⟩
  · change (1700000000 : Int) < 1700000001
    omega
  · intro x hx
    rw [List.mem_singleton.mp hx]
    exact Int.le_refl 1700000001

/-- Along a branch that keeps the time rule the median time never falls, and any six headers raise
it by a second. With times up to `latest` the branch has at most six headers for each second since
the median time that it starts at, and sessions there spread their bits over that many headers. -/
theorem six_headers_per_second (hi : i.Built) (hs : i.get? id = some start)
    (hds : i.Descends start ds) (ht : OnTime start ds) {latest : Int}
    (hlatest : ∀ e ∈ ds, e.header.seconds ≤ latest) :
    ((start :: ds).map Entry.medianTime).Pairwise (· ≤ ·) ∧
      (∀ before six later, ds = before ++ six ++ later → six.length = 6 →
        (before.getLastD start).medianTime + 1 ≤ ((before ++ six).getLastD start).medianTime) ∧
      (ds.length : Int) ≤ 6 * max 0 (latest - start.medianTime) ∧
      ∀ (count : Nat) (c : ChainStart) (minWork : UInt256) (params : Params) (config : Config)
        (now : Int64) (words : List UInt64) (key : Digest), i.chainStart? id count = some c →
        latest = now.toInt + config.maxFutureTime.toInt →
        ((Rules.start c minWork params config now.toInt words key).maxCommitments : Int) =
          min (6 * max 0 (latest - start.medianTime)) 0xffffffffffffffff /
            max 1 config.commitmentPeriod.toNat := by
  have hwf := hi.wellFormed
  have hs' : i.get? start.id = some start := (hwf.id_of_get? hs).symm ▸ hs
  refine ⟨?_, ?_, hwf.length_le_of_onTime hs' hds ht hlatest, ?_⟩
  · rw [List.pairwise_map]
    exact (hwf.isChain_medianTime hds ht).pairwise
  · intro before six later hsplit hsix
    rw [hsplit, List.append_assoc] at hds ht
    obtain ⟨hdbefore, hdrest⟩ := descends_append.mp hds
    have htrest := (onTime_append.mp ht).2
    have hraised := hwf.medianTime_lt_of_six (get?_of_descends hs' hdbefore)
      (descends_append.mp hdrest).1 (onTime_append.mp htrest).1 hsix
    have hend : (before ++ six).getLastD start = six.getLastD (before.getLastD start) := by
      simp [List.getLastD_eq_getLast?, List.getLast?_append]
    rw [hend]
    exact hraised
  · intro count c minWork params config now words key hc hlast
    have hmedian := (chainStart?_of_get? hs hc).2.2
    have hnonneg := hwf.medianTime_nonneg hs
    rw [← hmedian] at hnonneg ⊢
    rw [Rules.maxCommitments_start c hnonneg, ← hlast, Int.natCast_ediv, headerBudget]
    congr 1
    omega

/-- Fourteen headers, each a second later than the one before, of the 84 that fourteen seconds
allow. -/
theorem six_headers_per_second_slow :
    let g : Header := ⟨1, .zero, .zero, 1700000000, ⟨0x200f0f0f⟩, 0⟩
    let start : Entry := .genesis g
    let config : Config := { commitmentPeriod := 10 }
    ∃ (i : ChainIndex) (ds : List Entry) (c : ChainStart),
      i.Built ∧ i.get? g.id = some start ∧ i.Descends start ds ∧ OnTime start ds ∧
        ds.map (·.header.seconds) = (List.range 14).map (fun n : Nat => (1700000001 + n : Int)) ∧
        ((start :: ds).map Entry.medianTime).Pairwise (· ≤ ·) ∧
        start.medianTime + 1 ≤ ((ds.take 6).getLastD start).medianTime ∧
        ((ds.take 6).getLastD start).medianTime + 1 ≤ ((ds.take 12).getLastD start).medianTime ∧
        (ds.length : Int) ≤ 6 * max 0 (1700000014 - start.medianTime) ∧
        i.chainStart? g.id 1 = some c ∧
        (Rules.start c 0 Params.main config 1699992814 [] .zero).maxCommitments = 8 := by
  intro g start config
  obtain ⟨i, ds, -, hi, hfirst, hds, hcount, hheaders⟩ := exists_seconds
  have hs : i.get? g.id = some start := get?_eq_some.mpr ⟨[], hfirst⟩
  have htimes : ds.map (·.header.seconds) =
      (List.range 14).map (fun n : Nat => (1700000001 + n : Int)) := by
    have hmap := congrArg (List.map Header.seconds) hheaders
    rw [List.map_map] at hmap
    exact hmap
  have ht : OnTime start ds := by
    apply hi.wellFormed.onTime_of_later hs hds
    rw [hi.wellFormed.ancestors_of_descends hds, show i.ancestors start.id = [start] from hfirst,
      List.map_append, List.map_reverse, htimes]
    decide
  have hlatest : ∀ e ∈ ds, e.header.seconds ≤ 1700000014 := by
    intro e he
    have hmem : e.header.seconds ∈ ds.map (·.header.seconds) := List.mem_map_of_mem he
    rw [htimes] at hmem
    obtain ⟨n, hn, heq⟩ := List.mem_map.mp hmem
    have := List.mem_range.mp hn
    omega
  obtain ⟨hsorted, hsix, hbound, hmax⟩ := six_headers_per_second hi hs hds ht hlatest
  have hhalf := hsix [] (ds.take 6) (ds.drop 6) (List.take_append_drop 6 ds).symm
    (by rw [List.length_take, hcount]; rfl)
  have hmore := hsix (ds.take 6) ((ds.drop 6).take 6) (ds.drop 12)
    (by rw [← List.take_add, List.take_append_drop])
    (by rw [List.length_take, List.length_drop, hcount]; rfl)
  rw [← List.take_add] at hmore
  obtain ⟨c, hc⟩ : ∃ c, i.chainStart? g.id 1 = some c := by
    rw [chainStart?, hs]
    exact ⟨_, rfl⟩
  have hbudget := hmax 1 c 0 Params.main config 1699992814 [] .zero hc rfl
  have hbits : min (6 * max 0 (1700000014 - start.medianTime)) 0xffffffffffffffff /
      (max 1 config.commitmentPeriod.toNat : Nat) = ((8 : Nat) : Int) := by decide
  exact ⟨i, ds, c, hi, hs, hds, ht, htimes, hsorted, hhalf, hmore, hbound, hc,
    Int.ofNat_inj.mp (hbudget.trans hbits)⟩

end ChainIndex
end HeaderSync
