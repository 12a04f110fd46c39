import HeaderSync.Params.Preset
import HeaderSync.Params.Validity
import HeaderSync.Proofs.ChainIndex.Lineage
import HeaderSync.Proofs.Retarget.Samples
import HeaderSync.Proofs.Window.Recent
import HeaderSync.Session

/-!
# The window and the index ask for the same bits

A session judges headers by a window that it seeds with a piece of the chain and then moves along,
while the index reads its answer off all ancestors. Both see the same averaged targets and the same
two median times: the medians that the missing ancestors falsify lie too far back to be kept.
-/

namespace HeaderSync

attribute [local irreducible] Header.id Compact.work

theorem Entry.medianTime_genesis (h : Header) : (genesis h).medianTime = HeaderSync.medianTime
    ([h.seconds].take medianSpan) := by
  simp [genesis, HeaderSync.medianTime, medianSpan]

theorem Entry.medianTime_child (h : Header) (parent : Entry) (older : List Entry) :
    (child h parent older).medianTime = HeaderSync.medianTime
      ((h.seconds :: (parent :: older).map (·.header.seconds)).take medianSpan) := by
  rw [medianSpan, List.take_succ_cons, ← List.map_take]
  rfl

theorem Lineage.map_medianTime {l : List Entry} (hl : Lineage l) :
    l.map Entry.medianTime = recentMedians (l.map (·.header.seconds)) := by
  induction hl with
  | genesis h zero =>
    rw [List.map_singleton, List.map_singleton, Entry.medianTime_genesis]
    rfl
  | child h link rest ih =>
    rw [List.map_cons, ih, Entry.medianTime_child]
    rfl

theorem Lineage.consecutive {l : List Entry} (hl : Lineage l) (count : Nat) :
    Retarget.Consecutive ((l.take count).map Entry.sample).reverse := by
  rw [Retarget.Consecutive, List.isChain_reverse, List.isChain_map]
  exact hl.isChain_height.take count

namespace Window
variable {p : Params}

theorem after_lineage {l : List Entry} (hl : Lineage l) :
    after p (l.map Entry.stamp) =
      recent p (l.map (·.header.bits)) (l.map Entry.medianTime) (l.map (·.header.seconds)) := by
  rw [hl.map_medianTime, after, List.map_map, List.map_map]
  rfl

/-- A warm window averages the newest entries and reads the times of the newest one and of the
one before those averaged. -/
theorem expected_after_lineage {e first : Entry} {between rest : List Entry}
    (hl : Lineage (e :: between ++ first :: rest)) (hw : between.length + 1 = p.window) :
    (after p ((e :: between ++ first :: rest).map Entry.stamp)).expected p =
      (Retarget.meanTarget p.window ((e :: between).map (·.header.bits))).map fun mean =>
        some (Retarget.windowBits p mean e.medianTime first.medianTime) := by
  have hlen : p.window < ((e :: between ++ first :: rest).map Entry.stamp).length := by
    rw [List.length_map, List.length_append, List.length_cons, List.length_cons]
    omega
  have hbits : (e :: between ++ first :: rest).take p.window = e :: between :=
    List.take_left' hw
  have hmedians : (e :: between ++ first :: rest).take (p.window + 1) =
      e :: between ++ [first] := by
    rw [List.append_cons]
    exact List.take_left' (by simp [hw])
  have hlast : ((e :: between ++ [first]).map Entry.medianTime).getLastD 0 = first.medianTime := by
    rw [List.map_append]
    exact List.getLastD_concat
  rw [expected_of_isWarm p (by rw [isWarm_after, decide_eq_true hlen]), after_lineage hl]
  simp only [recent, ← List.map_take]
  rw [hbits, hmedians, hlast]
  rfl

end Window

namespace ChainIndex
variable {p : Params} {i : ChainIndex}

theorem requiredAfter_of_ancestors {id : Digest} {e : Entry} {older : List Entry}
    (ha : i.ancestors id = e :: older) (time : Int) :
    i.requiredAfter p id time =
      (Retarget.required p (i.samples id (sampleCount p)) time).mapError .retarget := by
  rw [requiredAfter, get?, ha]
  rfl

theorem getLast?_samples {id : Digest} {e : Entry} {older : List Entry}
    (ha : i.ancestors id = e :: older) :
    (i.samples id (sampleCount p)).getLast? = some e.sample := by
  have hpos : sampleCount p = max p.interval p.window + 1 := by
    unfold sampleCount
    omega
  rw [samples, ha, List.getLast?_reverse, hpos, List.take_succ_cons]
  rfl

/-- Where the ancestors are few, the index hands all of them to the rules. -/
theorem requiredAfter_of_required {id : Digest} {e : Entry} {older : List Entry} {time : Int}
    {bits : Compact} (ha : i.ancestors id = e :: older)
    (hfew : (e :: older).length ≤ sampleCount p)
    (h : Retarget.required p ((e :: older).map Entry.sample).reverse time = .ok bits) :
    i.requiredAfter p id time = .ok bits := by
  rw [requiredAfter_of_ancestors ha, samples, ha, List.take_of_length_le hfew, h]
  rfl

/-- The window rule finds the same entries in the newest samples of a lineage. -/
theorem requiredAfter_of_lineage {id : Digest} {e first : Entry} {between rest : List Entry}
    (ha : i.ancestors id = e :: between ++ first :: rest)
    (hl : Lineage (e :: between ++ first :: rest)) (hw : between.length + 1 = p.window) {time : Int}
    (hswitch : p.switchHeight.toNat < e.height) (hretarget : p.noRetargeting = false)
    (hgap : (p.minDifficultyAfter e.height &&
      Retarget.isLate p Retarget.windowGap e.header.seconds time) = false) :
    i.requiredAfter p id time =
      ((Retarget.meanTarget p.window ((e :: between).map (·.header.bits))).map fun mean =>
        Retarget.windowBits p mean e.medianTime first.medianTime).mapError .retarget := by
  obtain ⟨n, hn⟩ : ∃ n, sampleCount p = (e :: between).length + (n + 1) :=
    ⟨sampleCount p - (p.window + 1), by simp only [sampleCount, List.length_cons]; omega⟩
  have hprior : i.samples id (sampleCount p) = ((rest.take n).map Entry.sample).reverse ++
      first.sample :: ((e :: between).map Entry.sample).reverse := by
    rw [samples, ha, hn, List.take_length_add_append, List.take_succ_cons, List.map_append,
      List.reverse_append, List.map_cons (a := first), List.reverse_cons (a := first.sample),
      List.append_assoc, List.singleton_append]
  have hfirst : e.height = first.height + between.length + 1 := hl.height_eq
  have hsplit : Retarget.splitAt? (i.samples id (sampleCount p)) (e.sample.height - p.window) =
      some (first.sample, ((e :: between).map Entry.sample).reverse) := by
    have hconsecutive := hl.consecutive (sampleCount p)
    rw [← ha, ← samples, hprior] at hconsecutive
    have hheight : e.sample.height - p.window = first.sample.height := by
      simp only [Entry.sample]
      omega
    rw [hprior, hheight]
    exact Retarget.splitAt?_append hconsecutive
  have hwarm : p.window ≤ e.sample.height := by
    simp only [Entry.sample]
    omega
  have hbits : ((e :: between).map Entry.sample).reverse.map Retarget.Sample.bits =
      ((e :: between).map (·.header.bits)).reverse := by
    rw [List.map_reverse, List.map_map]
    rfl
  rw [requiredAfter_of_ancestors ha,
    Retarget.required_of_splitAt? (getLast?_samples ha) hswitch hretarget hgap hwarm hsplit, hbits,
    Retarget.meanTarget_reverse]
  rfl

/-- The window that starts with up to `count` stamps of history and then takes in some entries. -/
def windowAfter (i : ChainIndex) (p : Params) (id : Digest) (count : Nat) (ds : List Entry) :
    Option Window :=
  (i.chainStart? id count).map fun c =>
    (ds.map Entry.stamp).foldl (Window.accept p) (Window.ofHistory p c.history)

theorem exists_split {α : Type} {older : List α} {width : Nat} (hpos : width ≠ 0)
    (hle : width ≤ older.length) :
    ∃ between first rest, older = between ++ first :: rest ∧ between.length + 1 = width := by
  obtain ⟨first, rest, hrest⟩ : ∃ first rest, older.drop (width - 1) = first :: rest := by
    refine List.exists_cons_of_ne_nil fun hnil => ?_
    have hdrop := List.drop_eq_nil_iff.mp hnil
    omega
  refine ⟨older.take (width - 1), first, rest, ?_, ?_⟩
  · rw [← hrest, List.take_append_drop]
  · rw [List.length_take]
    omega

/-- The history left out by a start has no part in the window. -/
theorem windowAfter_eq (hi : i.WellFormed) {id : Digest} {start : Entry}
    (hs : i.get? id = some start) {ds : List Entry} (hds : i.Descends start ds) {count : Nat}
    (hcount : Session.historyLength p ≤ count) :
    i.windowAfter p id count ds =
      some (.after p ((i.ancestors (ds.getLastD start).id).map Entry.stamp)) := by
  have hspan : p.window + medianSpan ≤ count := by
    unfold Session.historyLength at hcount
    omega
  simp only [windowAfter, chainStart?, hs, Option.bind_eq_bind, Option.bind_some, Option.pure_def,
    Option.map_some]
  rw [Window.ofHistory_eq_after, List.reverse_reverse, List.map_take, Window.after_take p _ hspan,
    Window.foldl_accept_after, hi.ancestors_of_descends hds, hi.id_of_get? hs,
    List.map_append, List.map_reverse]

/-- A session's window is warm from the height `p.window` on. Where no exception applies to the next
header it then expects the bits that the index requires. More history than `Session.historyLength`
leads to the same window. -/
theorem window_agrees (hp : p.Valid) (hi : i.Built) {id : Digest} {start e : Entry}
    (hs : i.get? id = some start) {ds : List Entry} (hds : i.Descends start ds)
    (he : ds.getLastD start = e) {count : Nat} (hcount : Session.historyLength p ≤ count) :
    ∃ w, i.windowAfter p id count ds = some w ∧
      i.windowAfter p id (Session.historyLength p) ds = some w ∧
      (w.isWarm p = true ↔ p.window ≤ e.height) ∧
      ∀ time, w.isWarm p = true → p.switchHeight.toNat < e.height → p.noRetargeting = false →
        (p.minDifficultyAfter e.height &&
          Retarget.isLate p Retarget.windowGap e.header.seconds time) = false →
        ∃ bits, w.expected p = .ok (some bits) ∧ i.requiredAfter p e.id time = .ok bits := by
  have hwf := hi.wellFormed
  have hlast := get?_of_descends ((hwf.id_of_get? hs).symm ▸ hs) hds
  have hcounts := windowAfter_eq hwf hs hds hcount
  have hleast := windowAfter_eq hwf hs hds (Nat.le_refl (Session.historyLength p))
  rw [he] at hlast hcounts hleast
  obtain ⟨older, ha⟩ := get?_eq_some.mp hlast
  have hl : Lineage (e :: older) := (hwf.lineage ha).2
  have hheight : older.length = e.height := Nat.succ.inj hl.length_eq
  have hwarm : (Window.after p ((e :: older).map Entry.stamp)).isWarm p = true ↔
      p.window ≤ e.height := by
    rw [Window.isWarm_after, decide_eq_true_iff, List.length_map, List.length_cons, hheight]
    omega
  rw [ha] at hcounts hleast
  refine ⟨_, hcounts, hleast, hwarm, fun time hw hswitch hretarget hgap => ?_⟩
  obtain ⟨between, first, rest, rfl, hbetween⟩ :=
    exists_split hp.window_ne_zero (hheight ▸ hwarm.mp hw)
  rw [← List.cons_append] at ha hl ⊢
  rw [Window.expected_after_lineage hl hbetween,
    requiredAfter_of_lineage ha hl hbetween hswitch hretarget hgap, Retarget.meanTarget,
    if_neg hp.window_ne_zero]
  exact ⟨_, rfl, rfl⟩

/-- A window of a single target, above an entry with more ancestors than a session starts with. -/
theorem window_agrees_truncated :
    let p : Params := { Params.main with averagingWindow := 1, switchHeight := 0 }
    ∃ (i : ChainIndex) (start e : Entry),
      p.Valid ∧ i.Built ∧ i.get? start.id = some start ∧ i.Descends start [e] ∧
        Session.historyLength p < (i.ancestors start.id).length ∧
        ∃ w bits, i.windowAfter p start.id (Session.historyLength p) [e] = some w ∧
          w.isWarm p = true ∧ w.expected p = .ok (some bits) ∧
          i.requiredAfter p e.id 1700000015 = .ok bits := by
  intro p
  have hp : p.Valid := by decide +kernel
  obtain ⟨i, ds, -, hi, hfirst, hds, hcount, -⟩ := exists_seconds
  have htwo : (ds.drop 12).length = 2 := by rw [List.length_drop, hcount]
  obtain ⟨start, e, hlast⟩ := List.length_eq_two.mp htwo
  rw [← List.take_append_drop 12 ds, hlast, List.append_cons, descends_append,
    List.getLastD_concat] at hds
  obtain ⟨hbefore, hds⟩ := hds
  have hs := get?_of_descends (get?_eq_some.mpr ⟨[], hfirst⟩) hbefore
  have hancestors := hi.wellFormed.ancestors_of_descends hbefore
  rw [List.getLastD_concat] at hs hancestors
  have hlong : Session.historyLength p < (i.ancestors start.id).length := by
    change i.ancestors (Entry.genesis _).id = _ at hfirst
    have hlength : (ds.take 12).length = 12 := by rw [List.length_take, hcount]; rfl
    rw [hancestors, List.length_append, List.length_reverse, List.length_append, hlength, hfirst]
    exact Nat.lt_add_of_pos_right (Nat.succ_pos _)
  obtain ⟨older, ha⟩ := hds.exists_ancestors
  have hnext : e.height = start.height + 1 :=
    (List.isChain_cons_cons.mp (hi.wellFormed.lineage ha).2.isChain_height).1
  have hheight : 0 < e.height := hnext ▸ Nat.succ_pos _
  obtain ⟨w, hw, -, hwarm, hagree⟩ := window_agrees hp hi hs hds rfl (Nat.le_refl _)
  have hw' : w.isWarm p = true := hwarm.mpr hheight
  obtain ⟨bits, hexpected, hrequired⟩ := hagree 1700000015 hw' hheight rfl rfl
  exact ⟨i, start, e, hp, hi, hs, hds, hlong, w, bits, hw, hw', hexpected, hrequired⟩

end ChainIndex
end HeaderSync
