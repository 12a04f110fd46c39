import HeaderSync.Proofs.Session.Answer

/-!
# When a session is complete

A session ends without an abort in exactly one way: a call in the second pass accepts its whole
batch, and with that batch the work of everything accepted there reaches the required work. What
such a session has released is a linked chain with that work, and no header leaves any session
before the first pass has accepted a linked chain with that work.
-/

namespace HeaderSync

theorem Redownload.ending_of_accepted {r : Rules} {d : Redownload} {batch : List Header}
    (hacc : d.accepted r batch = batch) : (d.run r batch).ending = .ok none := by
  induction batch generalizing d with
  | nil => rfl
  | cons h rest ih =>
    unfold accepted at hacc
    unfold run
    cases hd : d.step r h with
    | error e => simp [hd] at hacc
    | ok outcome =>
      obtain ⟨d', cause⟩ := outcome
      cases cause with
      | some cause => simp [hd] at hacc
      | none =>
        simp only [hd] at hacc
        exact ih (List.cons.inj hacc).2

/-- Headers leave a session in the second pass only. -/
theorem Session.Step.isRedownload_of_headers {t t' : Session} {batch : List Header} {full : Bool}
    {reply : Reply} (h : t.Step batch full t' reply) (hne : reply.headers ≠ []) :
    t.isRedownload = true := by
  cases h with
  | ignored => exact absurd rfl hne
  | presyncAborted => exact absurd rfl hne
  | switched => exact absurd rfl hne
  | measuring => exact absurd rfl hne
  | presyncEnded => exact absurd rfl hne
  | redownloadAborted => exact absurd rfl hne
  | completed hb hs => simp [isRedownload, hs]
  | verifying hb hs => simp [isRedownload, hs]
  | redownloadEnded hb hs => simp [isRedownload, hs]

namespace Run
variable {r : Rules} {s : ChainStart} {run : Run} {m : Message}

/-- A message that brings the work together: the second pass takes its whole batch, and with it the
accepted headers have the required work. An empty batch is not taken but refused. -/
structure Completes (s : ChainStart) (minWork : UInt256) (run : Run) (m : Message) : Prop where
  fault_eq : run.fault = none
  isRedownload : run.session.isRedownload = true
  nonempty : m.headers ≠ []
  verifiedBy_eq : run.session.verifiedBy m.headers = m.headers
  enough : minWork ≤ totalWork s.work (run.verified ++ m.headers)

/-- A batch that the second pass accepts as a whole completes the session if the work is there with
it. A full batch lets the session go on otherwise. -/
theorem Tracks.process_of_verifiedBy (ht : run.Tracks r s)
    (hs : run.session.isRedownload = true) {batch : List Header} (hb : batch ≠ [])
    (hacc : run.session.verifiedBy batch = batch) (full : Bool) :
    (r.minWork ≤ totalWork s.work (run.verified ++ batch) →
      ∃ t out, run.session.process batch full = (t, .ok ⟨true, false, out⟩) ∧ t.isFinal = true ∧
        t.abort? = none) ∧
      (totalWork s.work (run.verified ++ batch) < r.minWork → full = true →
        ∃ t out, run.session.process batch full = (t, .ok ⟨true, true, out⟩) ∧
          t.isRedownload = true) := by
  obtain ⟨origin, pass, hstage⟩ := Session.stage_of_isRedownload hs
  obtain ⟨-, -, -, hpass, -⟩ := ht.holds_of_stage hstage
  replace hacc : pass.accepted r batch = batch := by
    simpa only [Session.verifiedBy, hstage, ht.rules_eq] using hacc
  have hending := Redownload.ending_of_accepted hacc
  obtain ⟨d, more, hd, hrun⟩ := hpass.run batch
  obtain ⟨-, hpass', -⟩ := hrun hending
  rw [hacc, ← hpass'] at hd
  have hdone := hd.isComplete_iff
  have hne : batch.isEmpty = false := by simpa using hb
  cases ho : pass.run r batch with
  | mk pass' out ending =>
    rw [ho] at hending hdone
    obtain rfl : ending = .ok none := hending
    dsimp only at hdone
    simp only [Session.process, hne, hstage, Session.processRedownload, ht.rules_eq, ho]
    refine ⟨fun hw => ?_, fun hw hfull => ?_⟩
    · exact ⟨run.session.finishRedownload pass' none, out, by simp [hdone.mpr hw], rfl, rfl⟩
    · have hopen := Bool.eq_false_iff.mpr (mt hdone.mp (Nat.not_le_of_lt hw))
      exact ⟨{ run.session with stage := .redownload origin pass' }, out,
        by simp [hopen, hfull, ht.rules_eq], rfl⟩

theorem Completes.call (hm : run.Completes s r.minWork m) (ht : run.Tracks r s) :
    (run.call m).fault = none ∧ (run.call m).session.isFinal = true ∧
      (run.call m).session.abort? = none ∧ (run.call m).verified = run.verified ++ m.headers := by
  obtain ⟨t, out, hprocess, hfinal, habort⟩ :=
    (ht.process_of_verifiedBy hm.isRedownload hm.nonempty hm.verifiedBy_eq m.full).1 hm.enough
  rw [call_of_process hm.fault_eq hprocess]
  exact ⟨hm.fault_eq, hfinal, habort, congrArg (run.verified ++ ·) hm.verifiedBy_eq⟩

/-- Of the steps of a session only the completing one ends it without an abort. -/
theorem Tracks.completes_of_call (ht : run.Tracks r s)
    (hfinal : (run.call m).session.isFinal = true) (habort : (run.call m).session.abort? = none) :
    run.session.isFinal = true ∧ run.session.abort? = none ∨ run.Completes s r.minWork m := by
  obtain ⟨e, he⟩ | ⟨t, reply, hfault, hstep, he⟩ := run.call_cases m
  · rw [he] at hfinal habort
    exact .inl ⟨hfinal, habort⟩
  rw [he] at hfinal habort
  replace hfinal : t.isFinal = true := hfinal
  replace habort : t.abort? = none := habort
  cases hstep with
  | ignored => exact .inl ⟨hfinal, habort⟩
  | presyncAborted => cases habort
  | switched => cases hfinal
  | measuring => cases hfinal
  | presyncEnded => cases habort
  | redownloadAborted => cases habort
  | verifying => cases hfinal
  | redownloadEnded => cases habort
  | @completed origin pass pass' out hb hs hr hw =>
    obtain ⟨-, hver, hpass⟩ : _ ∧ (run.record m run.session .failure).verified = _ ∧ _ :=
      ht.redownload_run hs hr
    rw [ht.rules_eq] at hw
    exact .inr
      { fault_eq := hfault
        isRedownload := by simp [Session.isRedownload, hs]
        nonempty := hb
        verifiedBy_eq := List.append_cancel_left hver
        enough := hpass.isComplete_iff.mp hw }

theorem session_feed_of_final (hf : run.fault = none) (hfinal : run.session.isFinal = true)
    (ms : List Message) : (run.feed ms).session = run.session := by
  induction ms generalizing run with
  | nil => rfl
  | cons m ms ih =>
    have hcall := (call_of_final hf hfinal m).2
    change ((run.call m).feed ms).session = run.session
    rw [hcall]
    exact ih hf hfinal

/-- A session that is complete after some messages was completed by one of them. -/
theorem Tracks.exists_completes (ht : run.Tracks r s) (hopen : run.session.isFinal = false)
    (ms : List Message) (hfinal : (run.feed ms).session.isFinal = true)
    (habort : (run.feed ms).session.abort? = none) :
    ∃ earlier m later, ms = earlier ++ m :: later ∧ (run.feed earlier).Completes s r.minWork m := by
  induction ms using List.reverseRecOn with
  | nil => exact absurd (hopen.symm.trans hfinal) Bool.false_ne_true
  | append_singleton ms m ih =>
    rw [feed_append] at hfinal habort
    rcases (ht.feed ms).completes_of_call hfinal habort with ⟨hbefore, hnone⟩ | hm
    · obtain ⟨earlier, x, later, rfl, hx⟩ := ih hbefore hnone
      exact ⟨earlier, x, later ++ [m], by simp, hx⟩
    · exact ⟨ms, m, [], rfl, hm⟩

/-- The message that completes a session is the last one that changes it. -/
theorem Completes.feed {ms earlier later : List Message} (ht : run.Tracks r s)
    (hms : ms = earlier ++ m :: later) (hm : (run.feed earlier).Completes s r.minWork m) :
    (run.feed ms).session.isFinal = true ∧ (run.feed ms).session.abort? = none ∧
      (run.feed ms).released = (run.feed earlier).verified ++ m.headers := by
  obtain ⟨hfault, hfinal, habort, hver⟩ := hm.call (ht.feed earlier)
  have hfeed : run.feed ms = ((run.feed earlier).call m).feed later := by
    rw [hms, feed_append]
    rfl
  rw [hfeed, session_feed_of_final hfault hfinal, feed_of_final hfault hfinal, ← hver]
  exact ⟨hfinal, habort, ((ht.feed earlier).call m).released_eq_of_final hfinal habort⟩

/-- Before the first header leaves the session, the first pass has accepted enough work. -/
theorem Tracks.exists_measured (ht : run.Tracks r s) (hnone : run.released = [])
    (ms : List Message) (hne : (run.feed ms).released ≠ []) :
    ∃ earlier, earlier <+: ms ∧ (run.feed earlier).released = [] ∧
      LinkedFrom s.id (run.feed earlier).measured ∧
      r.minWork ≤ totalWork s.work (run.feed earlier).measured := by
  induction ms using List.reverseRecOn with
  | nil => exact absurd hnone hne
  | append_singleton ms m ih =>
    by_cases hbefore : (run.feed ms).released = []
    · have hlast : run.feed (ms ++ [m]) = (run.feed ms).call m := feed_append run ms [m]
      rw [hlast] at hne
      obtain ⟨e, he⟩ | ⟨t, reply, -, hstep, he⟩ := (run.feed ms).call_cases m
      · rw [he] at hne
        exact absurd hbefore hne
      · rw [he, released_record, hbefore, List.nil_append] at hne
        obtain ⟨origin, pass, hstage⟩ :=
          Session.stage_of_isRedownload (hstep.isRedownload_of_headers hne)
        obtain ⟨-, hadmits, henough, -⟩ := (ht.feed ms).holds_of_stage hstage
        exact ⟨ms, List.prefix_append ms [m], hbefore, Cursor.linkedFrom_of_admits hadmits, henough⟩
    · obtain ⟨earlier, hprefix, hrest⟩ := ih hbefore
      exact ⟨earlier, hprefix.trans (List.prefix_append ms [m]), hrest⟩

/-- A session is complete exactly if one of the messages brought the work together in the second
pass. It has then released a linked chain with the required work. Before any session releases a
header its first pass has accepted such a chain. -/
theorem complete_iff_enough_verified (s : ChainStart) (minWork : UInt256) (params : Params)
    (config : Config) (now : Int) (words : List UInt64) (key : Digest) (ms : List Message) :
    let init := start (Session.start s minWork params config now words key)
    let run := init.feed ms
    (run.session.isFinal = true ∧ run.session.abort? = none ↔
      ∃ earlier m later, ms = earlier ++ m :: later ∧
        (init.feed earlier).Completes s minWork m) ∧
      (run.session.isFinal = true → run.session.abort? = none →
        LinkedFrom s.id run.released ∧ minWork ≤ totalWork s.work run.released) ∧
      (run.released ≠ [] → ∃ earlier, earlier <+: ms ∧ (init.feed earlier).released = [] ∧
        LinkedFrom s.id (init.feed earlier).measured ∧
        minWork ≤ totalWork s.work (init.feed earlier).measured) ∧
      (params.window ≠ 0 → run.fault = none) := by
  intro init run
  have hinit : init.Tracks (Rules.start s minWork params config now words key) s :=
    tracks_start s minWork params config now words key
  have ht := hinit.feed ms
  refine ⟨⟨?_, ?_⟩, ?_, ?_, ?_⟩
  · rintro ⟨hfinal, habort⟩
    exact hinit.exists_completes rfl ms hfinal habort
  · rintro ⟨earlier, m, later, hms, hm⟩
    obtain ⟨hfinal, habort, -⟩ := hm.feed hinit hms
    exact ⟨hfinal, habort⟩
  · intro hfinal habort
    obtain ⟨earlier, m, later, hms, hm⟩ := hinit.exists_completes rfl ms hfinal habort
    obtain ⟨-, -, hreleased⟩ := hm.feed hinit hms
    have hlinked := Cursor.linkedFrom_of_admits ht.vouched.admitted
    refine ⟨hlinked.of_prefix ht.released_prefix, ?_⟩
    rw [hreleased]
    exact hm.enough
  · exact hinit.exists_measured rfl ms
  · intro hp
    exact fault_feed hinit hp rfl ms

end Run
end HeaderSync
