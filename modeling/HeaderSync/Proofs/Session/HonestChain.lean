import HeaderSync.Proofs.ChainIndex.Growth
import HeaderSync.Proofs.ChainIndex.Permission
import HeaderSync.Proofs.Header.Identity
import HeaderSync.Proofs.Session.FirstOffence
import HeaderSync.Proofs.Time.Median

/-!
# A chain that the index accepts is never refused

Headers that were accepted into the index one on the other are clean under the link verdict of a
session that starts below them: they are linked, and the window permits the bits that the index
required. Fed in full batches they leave only one reason to abort the first pass, a chain longer
than time allows, and the session counts the same height and work as the index.
-/

namespace HeaderSync
attribute [local irreducible] Header.id Compact.work

variable {r : Rules} {c : ChainStart} {i j : ChainIndex} {id : Digest} {hs : List Header}

theorem ChainIndex.Built.chainStart?_id (hi : i.Built) {count : Nat}
    (hc : i.chainStart? id count = some c) : c.id = id := by
  obtain ⟨e, he, hid, -⟩ := chainStart?_eq_some hc
  exact hid.trans (hi.wellFormed.id_of_get? he)

/-- What a session that starts below the branch knows at its tip is what the index knows. -/
theorem ChainIndex.Extends.exists_window {p : Params} (hx : i.Extends p id hs j)
    (hc : i.chainStart? id (Session.historyLength p) = some c) :
    ∃ tip older, j.ancestors (tipId id hs) = tip :: older ∧
      c.height + hs.length = tip.height ∧ totalWork c.work hs = tip.work ∧
      (hs.map Header.stamp).getLastD ⟨c.header.bits, c.header.seconds⟩ = tip.stamp ∧
      Window.ofHistory p (c.history ++ hs.map Header.stamp) =
        .after p ((tip :: older).map Entry.stamp) := by
  obtain ⟨e, he, -, hheader, hheight, hwork, hhistory⟩ := chainStart?_eq_some hc
  obtain ⟨tip, older, ha, hheaders, htip, htotal⟩ := hx.exists_tip he
  have hstamps : (tip :: older).map Entry.stamp =
      (hs.map Header.stamp).reverse ++ (i.ancestors id).map Entry.stamp := by
    have hmap := congrArg (List.map Header.stamp) hheaders
    rw [List.map_append, List.map_reverse, List.map_map, List.map_map] at hmap
    exact hmap
  refine ⟨tip, older, ha, ?_, ?_, ?_, ?_⟩
  · rw [hheight, htip]
  · rw [hwork, htotal]
  · obtain ⟨rest, hstart⟩ := get?_eq_some.mp he
    have hhead := congrArg List.head? hstamps
    rw [hstart, List.head?_append, List.head?_reverse, List.map_cons, List.map_cons,
      List.head?_cons, List.head?_cons, Option.or_some] at hhead
    rw [List.getLastD_eq_getLast?, hheader]
    exact (Option.some.inj hhead).symm
  · have hspan : p.window + medianSpan ≤ Session.historyLength p := by
      unfold Session.historyLength
      omega
    rw [Window.ofHistory, List.foldl_append, ← Window.ofHistory, Window.ofHistory_eq_after,
      hhistory, List.reverse_reverse, List.map_take, Window.after_take p _ hspan,
      Window.foldl_accept_after, hstamps]

theorem Rules.linkVerdict_of_required (r : Rules) (hp : r.params.Valid)
    (hretarget : r.params.noRetargeting = false) (hi : i.Built)
    (hc : i.chainStart? id (Session.historyLength r.params) = some c)
    (hx : i.Extends r.params id hs j) {h : Header} (hlink : h.parent = tipId id hs)
    (hbits : j.requiredAfter r.params h.parent h.seconds = .ok h.bits) :
    r.linkVerdict c hs h = .ok none := by
  obtain ⟨tip, older, ha, hheight, -, hlast, hwindow⟩ := hx.exists_window hc
  have hl : Lineage (tip :: older) := ((hx.built hi).wellFormed.lineage ha).2
  rw [hlink] at hbits
  have hpermits := ChainIndex.permits_required hp hretarget ha hl h.stamp hbits
  unfold linkVerdict
  rw [if_neg (not_not.mpr (by rw [hlink, hi.chainStart?_id hc]))]
  dsimp only
  rw [hwindow, hlast, hheight, hpermits]
  rfl

theorem Rules.clean_linkVerdict (r : Rules) (hp : r.params.Valid)
    (hretarget : r.params.noRetargeting = false) (hi : i.Built)
    (hc : i.chainStart? id (Session.historyLength r.params) = some c)
    (hx : i.Extends r.params id hs j) : Verdict.Clean (r.linkVerdict c) hs := by
  induction hx using ChainIndex.Extends.induction with
  | start => exact Verdict.clean_nil _
  | required hj link bits hk ih =>
    exact Verdict.clean_concat.mpr ⟨ih, r.linkVerdict_of_required hp hretarget hi hc hj link bits⟩
  | aside hj hk ih => exact ih

/-- Clean links are all that a chain needs whose bits fit into the budget. -/
theorem Rules.clean_measuringVerdict (hclean : Verdict.Clean (r.linkVerdict c) hs)
    (hfit : r.committedHeights c.height hs.length ≤ r.maxCommitments) :
    Verdict.Clean (r.measuringVerdict c) hs := by
  intro before h hb
  have hlength := hb.length_le
  rw [List.length_append, List.length_singleton] at hlength
  have hmono := r.committedHeights_mono c.height hlength
  have hnone : r.measuringOffence? c before = none := by
    unfold measuringOffence?
    rw [if_neg]
    omega
  rw [measuringVerdict, hclean before h hb, hnone]
  rfl

/-- If the links are clean, the first pass aborts for the number of bits only. -/
theorem Presync.Tracks.cause_of_clean {p : Presync} (ht : p.Tracks r c hs) {batch : List Header}
    (hclean : Verdict.Clean (r.linkVerdict c) (hs ++ batch)) {abort : Abort}
    (hrun : (p.run r batch).2 = .ok (some abort)) : abort.cause = .commitmentOverrun := by
  induction batch generalizing p hs with
  | nil => cases hrun
  | cons h rest ih =>
    unfold Presync.run at hrun
    cases hp : p.step r h with
    | error e => simp [hp] at hrun
    | ok outcome =>
      obtain ⟨next, cause⟩ := outcome
      cases cause with
      | some cause =>
        simp only [hp] at hrun
        cases hrun
        have hverdict := ht.step_verdict h
        rw [hp, Rules.measuringVerdict, hclean hs h ⟨rest, by simp⟩] at hverdict
        exact (Rules.cause_of_measuringOffence? (Except.ok.inj hverdict).symm)
      | none =>
        simp only [hp] at hrun
        rw [List.append_cons] at hclean
        exact ih (ht.step hp) hclean hrun

namespace Run
variable {run : Run} {m : Message} {t : Session} {reply : Reply}

/-- What a full batch in the first pass leads to if the links stay clean. -/
theorem Tracks.step_of_clean (ht : run.Tracks r c) (hpre : run.session.isPresync = true)
    (hfull : m.full = true) (hclean : Verdict.Clean (r.linkVerdict c) (run.measured ++ m.headers))
    (hstep : run.session.Step m.headers m.full t reply) :
    (∀ abort, t.abort? = some abort → abort.cause = .commitmentOverrun) ∧
      (t.isFinal = false → t.presyncHeight = c.height + (run.measured ++ m.headers).length ∧
        t.presyncWork = totalWork c.work (run.measured ++ m.headers)) := by
  obtain ⟨origin, pass, hstage⟩ := Session.stage_of_isPresync hpre
  obtain ⟨rfl, hpass, -⟩ := ht.holds_of_stage hstage
  cases hstep with
  | ignored hi =>
    have hnil : m.headers = [] := by
      rcases hi with hnil | hfinal
      · exact hnil
      · simp [Session.isFinal, hstage] at hfinal
    rw [hnil, List.append_nil]
    have hnone : run.session.abort? = none := by rw [Session.abort?, hstage]
    refine ⟨?_, ?_⟩
    · intro abort habort
      cases hnone.symm.trans habort
    · intro _
      simp only [Session.presyncHeight, Session.presyncWork, hstage]
      exact ⟨hpass.height_eq, hpass.work_eq⟩
  | presyncAborted hs hr =>
    cases hstage.symm.trans hs
    refine ⟨?_, ?_⟩
    · intro abort habort
      cases habort
      rw [ht.rules_eq] at hr
      exact hpass.cause_of_clean hclean (by rw [hr])
    · intro hopen
      cases hopen
  | switched hb hs hr hw =>
    cases hstage.symm.trans hs
    rw [ht.rules_eq] at hr
    obtain ⟨-, hpass'⟩ := hpass.of_run hr
    refine ⟨?_, ?_⟩
    · intro abort habort
      cases habort
    · intro _
      exact ⟨hpass'.height_eq, hpass'.work_eq⟩
  | measuring hb hs hr hw hf =>
    cases hstage.symm.trans hs
    rw [ht.rules_eq] at hr
    obtain ⟨-, hpass'⟩ := hpass.of_run hr
    refine ⟨?_, ?_⟩
    · intro abort habort
      cases habort
    · intro _
      exact ⟨hpass'.height_eq, hpass'.work_eq⟩
  | presyncEnded hb hs hr hw hf => cases hfull.symm.trans hf
  | redownloadAborted hs => cases hstage.symm.trans hs
  | completed hb hs => cases hstage.symm.trans hs
  | verifying hb hs => cases hstage.symm.trans hs
  | redownloadEnded hb hs => cases hstage.symm.trans hs

/-- A chain without an offence is measured on until its work is enough. -/
theorem Tracks.isPresync_of_clean (ht : run.Tracks r c) (hpre : run.session.isPresync = true)
    (hfull : m.full = true) (hclean : Verdict.Clean (r.measuringVerdict c) (run.measured ++ m.headers))
    (hwork : totalWork c.work (run.measured ++ m.headers) < r.minWork)
    (hstep : run.session.Step m.headers m.full t reply) : t.isPresync = true := by
  obtain ⟨origin, pass, hstage⟩ := Session.stage_of_isPresync hpre
  obtain ⟨rfl, hpass, -⟩ := ht.holds_of_stage hstage
  cases hstep with
  | ignored hi => exact hpre
  | presyncAborted hs hr =>
    cases hstage.symm.trans hs
    have hjudge := hpass.run_judge m.headers
    rw [← ht.rules_eq, hr, ht.rules_eq] at hjudge
    obtain ⟨before, h, after, hsplit, -, hoffence, -⟩ :=
      (Verdict.judge_eq_some_iff (hclean.of_prefix (List.prefix_append _ _)) _ _).mp hjudge.symm
    rw [hclean _ h ⟨after, by simp [hsplit]⟩] at hoffence
    cases hoffence
  | switched hb hs hr hw =>
    cases hstage.symm.trans hs
    rw [ht.rules_eq] at hr hw
    rw [(hpass.of_run hr).2.work_eq] at hw
    exact absurd hw (Nat.not_le_of_lt hwork)
  | measuring => rfl
  | presyncEnded hb hs hr hw hf => cases hfull.symm.trans hf
  | redownloadAborted hs => cases hstage.symm.trans hs
  | completed hb hs => cases hstage.symm.trans hs
  | verifying hb hs => cases hstage.symm.trans hs
  | redownloadEnded hb hs => cases hstage.symm.trans hs

theorem measured_of_isPresync (ht : run.Tracks r c) (hm : run.measured = [])
    (hv : run.verified = []) (ms : List Message) (hf : (run.feed ms).fault = none)
    (hpre : (run.feed ms).session.isPresync = true) :
    (run.feed ms).measured = ms.flatMap Message.headers := by
  obtain ⟨origin, pass, hs⟩ := Session.stage_of_isPresync hpre
  obtain ⟨-, -, hverified, -⟩ := (ht.feed ms).holds_of_stage hs
  rw [fed_eq ht hm hv ms hf (by simp [Session.isFinal, hs]), hverified, List.append_nil]

theorem isPresync_feed (ht : run.Tracks r c) (hm : run.measured = []) (hv : run.verified = [])
    (hw : r.params.window ≠ 0) (hnone : run.fault = none) (hpre : run.session.isPresync = true)
    {batches : List (List Header)}
    (hclean : Verdict.Clean (r.measuringVerdict c) batches.flatten)
    (hwork : totalWork c.work batches.flatten < r.minWork) :
    (run.feed (batches.map Message.ofBatch)).session.isPresync = true := by
  induction batches using List.reverseRecOn with
  | nil => exact hpre
  | append_singleton batches batch ih =>
    rw [List.flatten_append, List.flatten_singleton] at hclean hwork
    have hfirst := List.prefix_append batches.flatten batch
    have hpre' := ih (hclean.of_prefix hfirst)
      (Nat.lt_of_le_of_lt (totalWork_mono c.work hfirst) hwork)
    have hfault : (run.feed (batches.map Message.ofBatch)).fault = none := fault_feed ht hw hnone _
    have hmeasured := measured_of_isPresync ht hm hv _ hfault hpre'
    rw [List.flatMap_map, show batches.flatMap (fun b => (Message.ofBatch b).headers) =
      batches.flatten from List.flatMap_id'] at hmeasured
    rw [← hmeasured] at hclean hwork
    have hlast : run.feed ((batches ++ [batch]).map Message.ofBatch) =
        (run.feed (batches.map Message.ofBatch)).call (.ofBatch batch) := by
      rw [List.map_append, feed_append]
      rfl
    obtain ⟨e, he⟩ | ⟨t, reply, -, hstep, he⟩ :=
      (run.feed (batches.map Message.ofBatch)).call_cases (.ofBatch batch)
    · have hend := fault_feed ht hw hnone ((batches ++ [batch]).map Message.ofBatch)
      rw [hlast, he] at hend
      cases hend
    · rw [hlast, he]
      exact (ht.feed _).isPresync_of_clean (m := .ofBatch batch) hpre' rfl hclean hwork hstep

/-- The headers of a branch that the index accepted never end the first pass if their work is not
enough and a bit for each commitment height among them fits. -/
theorem isPresync_of_accepted {p : Params} (hp : p.Valid) (hretarget : p.noRetargeting = false)
    (hi : i.Built) (hc : i.chainStart? id (Session.historyLength p) = some c)
    (hx : i.Extends p id hs j) (minWork : UInt256) (config : Config) (now : Int)
    (words : List UInt64) (key : Digest) {batches : List (List Header)}
    (hfed : batches.flatten <+: hs)
    (hroom : (Rules.start c minWork p config now words key).committedHeights c.height hs.length ≤
      (Rules.start c minWork p config now words key).maxCommitments)
    (hwork : totalWork c.work hs < minWork) :
    ((start (Session.start c minWork p config now words key)).feed
      (batches.map Message.ofBatch)).session.isPresync = true := by
  let r := Rules.start c minWork p config now words key
  have hclean : Verdict.Clean (r.measuringVerdict c) hs :=
    r.clean_measuringVerdict (r.clean_linkVerdict hp hretarget hi hc hx) hroom
  exact isPresync_feed (tracks_start c minWork p config now words key) rfl rfl hp.window_ne_zero rfl
    rfl (hclean.of_prefix hfed) (Nat.lt_of_le_of_lt (totalWork_mono c.work hfed) hwork)

/-- A session below a branch that the index accepted never refuses a header of it for its link or
its bits. Batch by batch, for as long as the chain is measured and when enough work has just been
measured, its height and its work are those of the index entry of the last header fed. -/
theorem accepted_branch_measured {p : Params} (hp : p.Valid) (hretarget : p.noRetargeting = false)
    (hi : i.Built) (hc : i.chainStart? id (Session.historyLength p) = some c)
    (hx : i.Extends p id hs j) (minWork : UInt256) (config : Config) (now : Int)
    (words : List UInt64) (key : Digest) {batches : List (List Header)} {batch : List Header}
    (hfed : (batches ++ [batch]).flatten <+: hs) :
    let run := (start (Session.start c minWork p config now words key)).feed
      (batches.map Message.ofBatch)
    j.chainStart? id (Session.historyLength p) = some c ∧ run.fault = none ∧
      ∃ t reply, run.session.process batch true = (t, .ok reply) ∧
        (run.session.isPresync = true →
          (∀ abort, t.abort? = some abort → abort.cause = .commitmentOverrun) ∧
          (t.isFinal = false → ∃ e, j.get? (tipId id (batches ++ [batch]).flatten) = some e ∧
            t.presyncHeight = e.height ∧ t.presyncWork = e.work)) := by
  intro run
  have hinit := tracks_start c minWork p config now words key
  have ht := hinit.feed (batches.map Message.ofBatch)
  have hfault : run.fault = none := fault_feed hinit hp.window_ne_zero rfl _
  have hwindow : run.session.rules.params.window ≠ 0 := by
    rw [ht.rules_eq]
    exact hp.window_ne_zero
  obtain ⟨t, reply, hprocess⟩ := Session.exists_process hwindow batch true
  refine ⟨hx.keptBy.chainStart?_eq hc, hfault, t, reply, hprocess, ?_⟩
  intro hpre
  have hmeasured : run.measured ++ batch = (batches ++ [batch]).flatten := by
    rw [measured_of_isPresync hinit rfl rfl _ hfault hpre, List.flatMap_map, List.flatten_append,
      List.flatten_singleton]
    exact congrArg (· ++ batch) List.flatMap_id'
  rw [← hmeasured] at hfed ⊢
  have hlinks := (Rules.start c minWork p config now words key).clean_linkVerdict hp hretarget hi
    hc hx
  obtain ⟨habort, hopen⟩ := ht.step_of_clean (m := .ofBatch batch) hpre rfl
    (hlinks.of_prefix hfed) (Session.step_of_process hprocess)
  refine ⟨habort, ?_⟩
  intro hfinal
  obtain ⟨hheight, hwork⟩ := hopen hfinal
  obtain ⟨k, hk, hkept⟩ := hx.of_prefix hfed
  obtain ⟨tip, older, ha, htip, htotal, -⟩ := hk.exists_window hc
  refine ⟨tip, hkept.get?_eq (ChainIndex.get?_eq_some.mpr ⟨older, ha⟩), ?_, ?_⟩
  · rw [hheight]
    exact htip
  · rw [hwork]
    exact htotal

/-- A slow child of a first block under the interval rule, and its own child under the window rule,
which eases the target. A second child of the first block is inserted in between. Far more work is
required, so the session goes on measuring after each of them. -/
theorem accepted_branch_measured_pair :
    let p : Params := { Params.main with averagingWindow := 1, switchHeight := 0 }
    let g : Header := ⟨1, .zero, .zero, 60, ⟨0x1d00ffff⟩, 0⟩
    let h : Header := ⟨1, g.id, .zero, 300, ⟨0x1d00ffff⟩, 0⟩
    let other : Header := ⟨1, g.id, .zero, 301, ⟨0x1d00ffff⟩, 0⟩
    let last : Header := ⟨1, h.id, .zero, 360, ⟨0x1d01510f⟩, 0⟩
    let first : Entry := .genesis g
    let middle : Entry := .child h first []
    let i := ChainIndex.empty.add first []
    let j := ((i.add middle [first]).add (.child other first []) [first]).add
      (.child last middle [first]) [middle, first]
    p.Valid ∧ p.noRetargeting = false ∧ i.Built ∧ i.Extends p g.id [h, last] j ∧
      ∃ c, i.chainStart? g.id (Session.historyLength p) = some c ∧
        let run := start (Session.start c (.wrap 0x1000000000) p {} 0 [] .zero)
        (run.feed [.ofBatch [h]]).session.isPresync = true ∧
          ∃ t reply, (run.feed [.ofBatch [h]]).session.process [last] true = (t, .ok reply) ∧
            t.isFinal = false ∧ ∃ e, j.get? last.id = some e ∧ t.presyncHeight = e.height ∧
              t.presyncWork = e.work := by
  intro p g h other last first middle i j
  have hp : p.Valid := by decide +kernel
  have hids : ([g, h, other, last].map Header.id).Nodup := by
    have hg := Header.numbers_id g rfl
    have hh := Header.numbers_id h hg
    have hother := Header.numbers_id other hg
    have hlast := Header.numbers_id last hh
    apply List.Nodup.of_map fun d : Digest => Bytes.numbers d.toList
    simp only [List.map_cons, List.map_nil, hg, hh, hother, hlast]
    decide +kernel
  obtain ⟨hgnew, hids⟩ := List.nodup_cons.mp hids
  obtain ⟨hi, hg, hfresh⟩ := ChainIndex.built_single (g := g) (by decide)
  let k := i.add middle [first]
  let k' := k.add (.child other first []) [first]
  have hnew : ∀ x ∈ [h, other, last], i.lineages.contains x.id = false := by
    intro x hx
    apply hfresh
    intro heq
    exact hgnew (heq ▸ List.mem_map_of_mem hx)
  obtain ⟨hk, hk', hkh, hj⟩ := ChainIndex.insert_fork hg (show other.parent = h.parent from rfl)
    (show last.parent = h.id from rfl) hnew hids
  have hbits : i.requiredAfter p h.parent h.seconds = .ok h.bits :=
    ChainIndex.requiredAfter_of_required hg (by decide) (by decide +kernel)
  have hbits' : k'.requiredAfter p last.parent last.seconds = .ok last.bits := by
    have hmedian : middle.medianTime = 300 :=
      medianTime_eq_of_perm (show [60, 300].Perm [300, 60] by decide) (by decide) (by decide)
    have hsample : middle.sample = ⟨1, 300, ⟨0x1d00ffff⟩, 300⟩ := by
      rw [Entry.sample, hmedian]
      rfl
    apply ChainIndex.requiredAfter_of_required hkh (by decide)
    rw [List.map_cons, hsample]
    decide +kernel
  have hx : i.Extends p g.id [h, last] j :=
    .required (.aside (.required .start rfl hbits hk) hk') rfl hbits' hj
  have hs : i.get? g.id = some first := ChainIndex.get?_eq_some.mpr ⟨[], hg⟩
  obtain ⟨c, hc⟩ : ∃ c, i.chainStart? g.id (Session.historyLength p) = some c := by
    rw [ChainIndex.chainStart?, hs]
    exact ⟨_, rfl⟩
  let r := Rules.start c (.wrap 0x1000000000) p {} 0 [] .zero
  have hroom : r.committedHeights c.height [h, last].length ≤ r.maxCommitments := by
    have hmedian : c.medianTime = 60 := by
      rw [ChainIndex.chainStart?, hs] at hc
      cases hc
      rfl
    refine Nat.le_trans (r.committedHeights_le c.height 2) ?_
    simp only [r, Rules.start, hmedian]
    decide
  have hwork : totalWork c.work [h, last] < .wrap 0x1000000000 := by
    obtain ⟨e, he, -, -, -, hwork, -⟩ := ChainIndex.chainStart?_eq_some hc
    obtain rfl := Option.some.inj (hs.symm.trans he)
    have hfar : totalWork first.work [h, last] < .wrap 0x1000000000 := by decide +kernel
    rw [hwork]
    exact hfar
  have hfirst : [[h]].flatten <+: [h, last] := List.prefix_append [h] [last]
  have hall : ([[h]] ++ [[last]]).flatten <+: [h, last] := List.prefix_refl [h, last]
  have hpre := isPresync_of_accepted hp rfl hi hc hx _ {} 0 [] .zero hfirst hroom hwork
  have hboth := isPresync_of_accepted hp rfl hi hc hx _ {} 0 [] .zero hall hroom hwork
  obtain ⟨-, hfault, t, reply, hprocess, hmeasured⟩ :=
    accepted_branch_measured hp rfl hi hc hx (.wrap 0x1000000000) {} 0 [] .zero hall
  have hopen : t.isFinal = false := by
    rw [List.map_append, feed_append] at hboth
    change (call _ (.ofBatch [last])).session.isPresync = true at hboth
    rw [call_of_process hfault hprocess] at hboth
    obtain ⟨origin, pass, hstage⟩ := Session.stage_of_isPresync hboth
    rw [Session.isFinal, show t.stage = _ from hstage]
  exact ⟨hp, rfl, hi, hx, c, hc, hpre, t, reply, hprocess, hopen, (hmeasured hpre).2 hopen⟩

end Run
end HeaderSync
