import HeaderSync.Params.Preset
import HeaderSync.Proofs.Session.Completion
import Mathlib.Data.Nat.Find
import Mathlib.Order.Bounds.Basic

/-!
# The second pass follows the first

A peer that serves the same headers twice is never refused. Every header that the first pass
admitted is admitted again, and its bit is the next one in the queue, however the headers are cut
into batches; the session is complete with the batch that brings the work together again.
-/

namespace HeaderSync.Redownload.Tracks
attribute [local irreducible] Header.id Compact.work commitmentBit Window.accept

variable {r : Rules} {s : ChainStart} {measured released hs : List Header} {d : Redownload}
  {h : Header}

theorem pop?_commitments (ht : d.Tracks r s measured hs released) (hp : hs ++ [h] <+: measured)
    (hc : r.commitsAt (d.cursor.height + 1) = true) (hw : d.isReleasing r = false) :
    ∃ rest, d.commitments.pop? = some (r.commitment h.id, rest) := by
  obtain ⟨zs, hzs⟩ := hp
  have hm : measured[hs.length]? = some h := by simp [← hzs]
  have hbits := ht.toList_eq (.inr hw)
  rw [ht.height_eq] at hc
  rw [r.storedBits_succ, if_pos hc, hm] at hbits
  obtain ⟨rest, hrest, -⟩ := Queue.exists_pop?_of_toList hbits
  exact ⟨rest, hrest⟩

/-- A header that the first pass accepted at the same place is accepted. -/
theorem exists_step (ht : d.Tracks r s measured hs released)
    (ha : (Cursor.start r.params s).Admits r.params measured) (hp : hs ++ [h] <+: measured) :
    ∃ d', d.step r h = .ok (d', none) := by
  have hrefusal : d.cursor.refusal? r.params h = .ok none := by
    obtain ⟨zs, rfl⟩ := hp
    have hpre := ((Cursor.admits_append _ _ _).mp ha).1
    rw [Cursor.admits_append, Cursor.admits_singleton, ← ht.cursor_eq] at hpre
    exact hpre.2
  have hstep : d.step r h = .ok (d.store r h) := by
    simp [Redownload.step, hrefusal, bind, Except.bind, pure, Except.pure]
  rw [hstep]
  unfold store
  split_ifs with hcond
  · exact ⟨_, rfl⟩
  · simp only [Bool.or_eq_true, Bool.not_eq_true', not_or, Bool.not_eq_true,
      Bool.not_eq_false] at hcond
    have hw : d.isReleasing r = false := by
      have hweigh := hcond.1
      simp only [isReleasing, decide_eq_false_iff_not] at hweigh ⊢
      exact fun hle => hweigh (Nat.le_trans hle (le_totalWork d.cursor.work [h]))
    obtain ⟨rest, hpop⟩ := ht.pop?_commitments hp hcond.2 hw
    exact ⟨({ d with commitments := rest }).hold r h, by simp [hpop]⟩

theorem ending_of_prefix (ht : d.Tracks r s measured hs released)
    (ha : (Cursor.start r.params s).Admits r.params measured) {batch : List Header}
    (hp : hs ++ batch <+: measured) : (d.run r batch).ending = .ok none := by
  induction batch generalizing d hs released with
  | nil => rfl
  | cons h rest ih =>
    rw [List.append_cons] at hp
    obtain ⟨d', hd⟩ := ht.exists_step ha ((List.prefix_append _ _).trans hp)
    simpa [Redownload.run, hd] using ih (ht.step hd) hp

end HeaderSync.Redownload.Tracks

namespace HeaderSync

namespace Run
variable {r : Rules} {s : ChainStart} {run : Run} {m : Message}

/-- A batch that continues the second pass along the headers of the first is accepted. It completes
the session if the work is there with it, and the session goes on otherwise. -/
theorem Tracks.process_of_prefix (ht : run.Tracks r s) (hs : run.session.isRedownload = true)
    {batch : List Header} (hb : batch ≠ []) (hp : run.verified ++ batch <+: run.measured) :
    run.session.measuredBy batch = [] ∧ run.session.verifiedBy batch = batch ∧
      ∃ t reply, run.session.process batch true = (t, .ok reply) ∧ reply.success = true ∧
        (r.minWork ≤ totalWork s.work (run.verified ++ batch) →
          reply.requestMore = false ∧ t.isFinal = true ∧ t.abort? = none) ∧
        (totalWork s.work (run.verified ++ batch) < r.minWork →
          reply.requestMore = true ∧ t.isRedownload = true) := by
  obtain ⟨origin, pass, hstage⟩ := Session.stage_of_isRedownload hs
  obtain ⟨-, hadmits, -, hpass, -⟩ := ht.holds_of_stage hstage
  obtain ⟨d, more, -, hrun⟩ := hpass.run batch
  obtain ⟨hacc, -⟩ := hrun (hpass.ending_of_prefix hadmits hp)
  have hall : run.session.verifiedBy batch = batch := by
    simpa only [Session.verifiedBy, hstage, ht.rules_eq] using hacc
  obtain ⟨henough, hbelow⟩ := ht.process_of_verifiedBy hs hb hall true
  refine ⟨by simp [Session.measuredBy, hstage], hall, ?_⟩
  by_cases hw : r.minWork ≤ totalWork s.work (run.verified ++ batch)
  · obtain ⟨t, out, hprocess, hfinal, habort⟩ := henough hw
    exact ⟨t, _, hprocess, rfl, fun _ => ⟨rfl, hfinal, habort⟩,
      fun hlt => absurd hw (Nat.not_le_of_lt hlt)⟩
  · obtain ⟨t, out, hprocess, hopen⟩ := hbelow (Nat.lt_of_not_le hw) rfl
    exact ⟨t, _, hprocess, rfl, fun hle => absurd hle hw, fun _ => ⟨rfl, hopen⟩⟩

/-- The same for the whole run. -/
theorem Tracks.call_of_prefix (ht : run.Tracks r s) (hf : run.fault = none)
    (hs : run.session.isRedownload = true) {batch : List Header} (hb : batch ≠ [])
    (hp : run.verified ++ batch <+: run.measured) :
    let next := run.call (.ofBatch batch)
    next.fault = none ∧ next.measured = run.measured ∧ next.verified = run.verified ++ batch ∧
      ∃ reply, run.session.process batch true = (next.session, .ok reply) ∧
        reply.success = true ∧
        (r.minWork ≤ totalWork s.work (run.verified ++ batch) →
          reply.requestMore = false ∧ next.session.isFinal = true ∧
            next.session.abort? = none) ∧
        (totalWork s.work (run.verified ++ batch) < r.minWork →
          reply.requestMore = true ∧ next.session.isRedownload = true) := by
  obtain ⟨hnone, hall, t, reply, hprocess, hrest⟩ := ht.process_of_prefix hs hb hp
  have hcall : run.call (.ofBatch batch) = run.record (.ofBatch batch) t reply :=
    call_of_process hf hprocess
  rw [hcall]
  refine ⟨hf, ?_, ?_, reply, hprocess, hrest⟩
  · exact (congrArg (run.measured ++ ·) hnone).trans (List.append_nil _)
  · exact congrArg (run.verified ++ ·) hall

/-- The call that starts the second pass has added its batch to the first, and nothing else. -/
theorem Tracks.of_switch (ht : run.Tracks r s) (hpre : run.session.isPresync = true)
    (hre : (run.call m).session.isRedownload = true) :
    (run.call m).fault = none ∧ (run.call m).verified = [] ∧ m.headers ≠ [] := by
  obtain ⟨e, he⟩ | ⟨t, reply, hnone, hstep, he⟩ := run.call_cases m
  · obtain ⟨_, _, hs⟩ := Session.stage_of_isPresync hpre
    rw [he, Session.isRedownload, hs] at hre
    cases hre
  · rw [he] at hre ⊢
    obtain ⟨hb, origin, pass, pass', hs, hr, -⟩ := hstep.of_switch hpre hre
    exact ⟨hnone, (ht.presync_run hs hr).2.2.2.1, hb⟩

/-- The first header with which the work is enough, the very first one if it was enough before. -/
theorem exists_isLeast_enough {base enough : UInt256} {hs : List Header} (hne : hs ≠ [])
    (hw : enough ≤ totalWork base hs) :
    ∃ k, IsLeast {i | 1 ≤ i ∧ enough ≤ totalWork base (hs.take i)} k ∧ k ≤ hs.length ∧
      ∀ xs, xs <+: hs → (k ≤ xs.length ↔ xs ≠ [] ∧ enough ≤ totalWork base xs) := by
  have hlen : 1 ≤ hs.length := List.length_pos_iff.mpr hne
  have hall : 1 ≤ hs.length ∧ enough ≤ totalWork base (hs.take hs.length) :=
    ⟨hlen, by rwa [List.take_length]⟩
  have hex : ∃ i, 1 ≤ i ∧ enough ≤ totalWork base (hs.take i) := ⟨_, hall⟩
  refine ⟨Nat.find hex, ⟨Nat.find_spec hex, fun i hi => Nat.find_min' hex hi⟩,
    Nat.find_min' hex hall, fun xs hxs => ⟨fun hle => ⟨?_, ?_⟩, fun ⟨hx, hxw⟩ => ?_⟩⟩
  · rintro rfl
    have hone := (Nat.find_spec hex).1
    rw [List.length_nil] at hle
    omega
  · refine Nat.le_trans (Nat.find_spec hex).2 (totalWork_mono base ?_)
    exact List.prefix_of_prefix_length_le (List.take_prefix _ _) hxs
      (by rw [List.length_take]; omega)
  · refine Nat.find_min' hex ⟨List.length_pos_iff.mpr hx, ?_⟩
    rwa [← List.prefix_iff_eq_take.mp hxs]

/-- Where the session stands when the headers `hs` of the first pass have been fed again: still in
the second pass before the `k`-th header, and complete from there on. -/
def Replayed (run : Run) (measured : List Header) (k : ℕ) (hs : List Header) : Prop :=
  hs.length < k ∧ run.session.isRedownload = true ∧ run.measured = measured ∧ run.verified = hs ∨
    k ≤ hs.length ∧ run.session.isFinal = true ∧ run.session.abort? = none

/-- One more batch. The one with the `k`-th header completes the session and releases everything. -/
theorem Tracks.call_of_replayed (ht : run.Tracks r s) (hf : run.fault = none)
    {measured hs batch : List Header} {k : ℕ} (hat : run.Replayed measured k hs) (hb : batch ≠ [])
    (hp : hs ++ batch <+: measured)
    (hk : k ≤ (hs ++ batch).length ↔ r.minWork ≤ totalWork s.work (hs ++ batch)) :
    let next := run.call (.ofBatch batch)
    next.fault = none ∧ next.Replayed measured k (hs ++ batch) ∧
      ∃ reply, run.session.process batch true = (next.session, .ok reply) ∧
        next.session.abort? = none ∧
        ((hs ++ batch).length < k → reply.success = true ∧ reply.requestMore = true) ∧
        (hs.length < k → k ≤ (hs ++ batch).length →
          reply.success = true ∧ reply.requestMore = false ∧ next.session.isFinal = true ∧
            next.released = hs ++ batch) := by
  rcases hat with ⟨hlt, hred, rfl, rfl⟩ | ⟨hle, hfinal, habort⟩
  · obtain ⟨hnone, hmeasured, hver, reply, hprocess, hsuccess, henough, hbelow⟩ :=
      ht.call_of_prefix hf hred hb hp
    by_cases hcross : k ≤ (run.verified ++ batch).length
    · obtain ⟨hstop, hfinal, habort⟩ := henough (hk.mp hcross)
      have hreleased := (ht.call _).released_eq_of_final hfinal habort
      exact ⟨hnone, .inr ⟨hcross, hfinal, habort⟩, reply, hprocess, habort,
        fun hlt' => absurd hcross (Nat.not_le_of_lt hlt'),
        fun _ _ => ⟨hsuccess, hstop, hfinal, hreleased.trans hver⟩⟩
    · obtain ⟨hmore, hred'⟩ := hbelow (Nat.lt_of_not_le fun hw => hcross (hk.mpr hw))
      exact ⟨hnone, .inl ⟨Nat.lt_of_not_le hcross, hred', hmeasured, hver⟩, reply, hprocess,
        Session.abort?_of_isRedownload hred', fun _ => ⟨hsuccess, hmore⟩,
        fun _ hle => absurd hle hcross⟩
  · obtain ⟨hprocess, hcall⟩ := call_of_final hf hfinal (.ofBatch batch)
    have hlong : k ≤ (hs ++ batch).length := by
      rw [List.length_append]
      omega
    intro next
    have hnext : next = run.record (.ofBatch batch) run.session .failure := hcall
    rw [hnext]
    exact ⟨hf, .inr ⟨hlong, hfinal, habort⟩, .failure, hprocess, habort,
      fun hlt => absurd hlong (Nat.not_le_of_lt hlt), fun hlt => absurd hle (Nat.not_le_of_lt hlt)⟩

theorem Tracks.feed_of_prefix (ht : run.Tracks r s) (hf : run.fault = none) {k : ℕ}
    (hat : run.Replayed run.measured k [])
    (hk : ∀ xs, xs <+: run.measured →
      (k ≤ xs.length ↔ xs ≠ [] ∧ r.minWork ≤ totalWork s.work xs))
    (done : List (List Header)) (hb : ∀ b ∈ done, b ≠ []) (hp : done.flatten <+: run.measured) :
    (run.feed (done.map Message.ofBatch)).fault = none ∧
      (run.feed (done.map Message.ofBatch)).Replayed run.measured k done.flatten := by
  induction done using List.reverseRecOn with
  | nil => exact ⟨hf, hat⟩
  | append_singleton done b ih =>
    rw [List.flatten_append, List.flatten_singleton] at hp ⊢
    obtain ⟨hfault, hdone⟩ :=
      ih (fun c hc => hb c (by simp [hc])) ((List.prefix_append _ _).trans hp)
    have hne : b ≠ [] := hb b (by simp)
    have hcross := hk _ hp
    rw [and_iff_right (List.append_ne_nil_of_right_ne_nil _ hne)] at hcross
    obtain ⟨hnone, hnext, -⟩ := (ht.feed _).call_of_replayed hfault hdone hne hp hcross
    rw [List.map_append, feed_append]
    exact ⟨hnone, hnext⟩

/-- What the messages that take a session from the first pass to the second have led to. -/
theorem Tracks.feed_switch (ht : run.Tracks r s) (hm : run.measured = []) (hv : run.verified = [])
    {first : List Message} {last : Message} (hpre : (run.feed first).session.isPresync = true)
    (hre : (run.feed (first ++ [last])).session.isRedownload = true) :
    (run.feed (first ++ [last])).fault = none ∧ (run.feed (first ++ [last])).verified = [] ∧
      (run.feed (first ++ [last])).measured = (first ++ [last]).flatMap Message.headers ∧
      (first ++ [last]).flatMap Message.headers ≠ [] ∧
      r.minWork ≤ totalWork s.work ((first ++ [last]).flatMap Message.headers) := by
  have hcall : run.feed (first ++ [last]) = (run.feed first).call last :=
    feed_append run first [last]
  obtain ⟨hfault, hver, hlast⟩ := (ht.feed first).of_switch hpre (by rwa [← hcall])
  rw [← hcall] at hfault hver
  have hend : (run.feed (first ++ [last])).Tracks r s := ht.feed _
  have hfed := fed_eq ht hm hv (first ++ [last]) hfault
  obtain ⟨origin, pass, hstage⟩ := Session.stage_of_isRedownload hre
  have hmeasured := hfed (by rw [Session.isFinal, hstage])
  rw [hver, List.append_nil] at hmeasured
  refine ⟨hfault, hver, hmeasured.symm, by simp [hlast], ?_⟩
  rw [hmeasured]
  exact (hend.holds_of_stage hstage).2.2.1

/-- If some messages take a new session from the first pass to the second, then the same headers,
cut into any other full batches, are accepted again without an abort. The session asks for more
until the batch with the `k`-th header, the first one with which the work is enough. That batch
completes the session, which has then released every header up to the last one of it. -/
theorem same_headers_complete (s : ChainStart) (minWork : UInt256) (params : Params)
    (config : Config) (now : Int) (words : List UInt64) (key : Digest) (first : List Message)
    (last : Message)
    (hpre : ((start (Session.start s minWork params config now words key)).feed
      first).session.isPresync = true)
    (hre : ((start (Session.start s minWork params config now words key)).feed
      (first ++ [last])).session.isRedownload = true) :
    let run := (start (Session.start s minWork params config now words key)).feed (first ++ [last])
    let hs := (first ++ [last]).flatMap Message.headers
    ∃ k, IsLeast {i | 1 ≤ i ∧ minWork ≤ totalWork s.work (hs.take i)} k ∧ k ≤ hs.length ∧
      ∀ batches : List (List Header), (∀ b ∈ batches, b ≠ []) → batches.flatten = hs →
        ∀ done b rest, batches = done ++ b :: rest →
          ∃ t reply, (run.feed (done.map Message.ofBatch)).session.process b true = (t, .ok reply) ∧
            t.abort? = none ∧
            ((done.flatten ++ b).length < k → reply.success = true ∧ reply.requestMore = true) ∧
            (done.flatten.length < k → k ≤ (done.flatten ++ b).length →
              reply.success = true ∧ reply.requestMore = false ∧ t.isFinal = true ∧
                (run.feed (batches.map Message.ofBatch)).released = done.flatten ++ b) := by
  intro run hs
  have hnew := tracks_start s minWork params config now words key
  have ht : run.Tracks _ s := hnew.feed (first ++ [last])
  obtain ⟨hfault, hver, hmeasured, hne, henough⟩ := hnew.feed_switch rfl rfl hpre hre
  obtain ⟨k, hleast, hkn, hwork⟩ := exists_isLeast_enough hne henough
  refine ⟨k, hleast, hkn, fun batches hb hflat done b rest hsplit => ?_⟩
  have hinit : ∀ bs, bs <+: batches → bs.flatten <+: run.measured := by
    rintro _ ⟨cs, rfl⟩
    rw [hmeasured, show (first ++ [last]).flatMap Message.headers = hs from rfl, ← hflat]
    exact ⟨cs.flatten, List.flatten_append.symm⟩
  have hdone : done <+: batches := ⟨b :: rest, hsplit.symm⟩
  have hnext : done.flatten ++ b <+: run.measured := by
    have hle := hinit (done ++ [b])
      ⟨rest, by rw [hsplit, List.append_assoc, List.singleton_append]⟩
    rwa [List.flatten_append, List.flatten_singleton] at hle
  have hne' : b ≠ [] := hb b (by simp [hsplit])
  have hcross := hwork _ (hmeasured ▸ hnext)
  rw [and_iff_right (List.append_ne_nil_of_right_ne_nil _ hne')] at hcross
  obtain ⟨hf, hat⟩ := ht.feed_of_prefix hfault (.inl ⟨hleast.1.1, hre, rfl, hver⟩)
    (hmeasured ▸ hwork) done (fun c hc => hb c (hdone.subset hc)) (hinit done hdone)
  obtain ⟨hnone, -, reply, hprocess, habort, hbelow, henough'⟩ :=
    (ht.feed _).call_of_replayed hf hat hne' hnext hcross
  refine ⟨_, reply, hprocess, habort, hbelow, fun hlt hle => ?_⟩
  obtain ⟨hsuccess, hstop, hfinal, hreleased⟩ := henough' hlt hle
  refine ⟨hsuccess, hstop, hfinal, ?_⟩
  rw [hsplit, List.map_append, feed_append]
  exact (feed_of_final hnone hfinal (rest.map Message.ofBatch)).trans hreleased

/-- Two linked headers, where the work of both is needed, above a start without history. -/
theorem same_headers_complete_pair :
    let s : ChainStart :=
      { id := .zero, header := ⟨1, .zero, .zero, 0, ⟨0x200f0f0f⟩, 0⟩, height := 5, work := 0,
        medianTime := 0, history := [], locator := [] }
    let x : Header := ⟨1, .zero, .zero, 60, ⟨0x200f0f0f⟩, 0⟩
    let y : Header := ⟨1, x.id, .zero, 120, ⟨0x200f0f0f⟩, 0⟩
    let run :=
      start (Session.start s (.wrap 34) Params.regtest { commitmentPeriod := 1 } 0 [] .zero)
    let switched := run.feed ([.ofBatch [x]] ++ [.ofBatch [y]])
    (run.feed [.ofBatch [x]]).session.isPresync = true ∧ switched.session.isRedownload = true ∧
      IsLeast {i | 1 ≤ i ∧ .wrap 34 ≤ totalWork s.work ([x, y].take i)} 2 ∧
      ∀ batches : List (List Header), (∀ b ∈ batches, b ≠ []) → batches.flatten = [x, y] →
        ∀ done b rest, batches = done ++ b :: rest →
          ∃ t reply,
            (switched.feed (done.map Message.ofBatch)).session.process b true = (t, .ok reply) ∧
              t.abort? = none ∧
              ((done.flatten ++ b).length < 2 → reply.success = true ∧ reply.requestMore = true) ∧
              (done.flatten.length < 2 → 2 ≤ (done.flatten ++ b).length →
                reply.success = true ∧ reply.requestMore = false ∧ t.isFinal = true ∧
                  (switched.feed (batches.map Message.ofBatch)).released = done.flatten ++ b) := by
  intro s x y run switched
  have hpre : (run.feed [.ofBatch [x]]).session.isPresync = true := by decide +kernel
  have hre : switched.session.isRedownload = true := by decide +kernel
  have hleast : IsLeast {i | 1 ≤ i ∧ .wrap 34 ≤ totalWork s.work ([x, y].take i)} 2 := by
    refine ⟨⟨by decide, by decide +kernel⟩, fun i hi => ?_⟩
    -- The first header alone has half of the work.
    have hone : i ≠ 1 := by
      rintro rfl
      exact absurd hi.2 (by decide +kernel)
    have hpos := hi.1
    omega
  obtain ⟨k, hk, -, hrun⟩ := same_headers_complete s (.wrap 34) Params.regtest
    { commitmentPeriod := 1 } 0 [] .zero [.ofBatch [x]] (.ofBatch [y]) hpre hre
  obtain rfl := hk.unique hleast
  exact ⟨hpre, hre, hleast, hrun⟩

end Run
end HeaderSync
