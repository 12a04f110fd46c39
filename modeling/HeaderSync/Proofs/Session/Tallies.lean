import HeaderSync.Params.Preset
import HeaderSync.Proofs.Session.Phases
import HeaderSync.Proofs.Session.Verdict

/-!
# The tallies after an abort

A session that was aborted over a header still tells the height and the work of the pass it was in.
In the first pass, and where the header did not link or its bits were refused, these are those of the
accepted headers. A header that fails the comparison of its bit in the second pass has been weighed
before, so the work then includes it, while the height does not.
-/

namespace HeaderSync
attribute [local irreducible] Header.id Compact.work commitmentBit Window.accept

/-- Whether an abort came from the stored bits, so that the header had passed all other checks. -/
def AbortCause.isComparison (cause : AbortCause) : Bool :=
  cause = .commitmentOverrun || cause = .commitmentMismatch

theorem Cursor.isComparison_of_refusal? {p : Params} {c : Cursor} {h : Header} {cause : AbortCause}
    (hr : c.refusal? p h = .ok (some cause)) : cause.isComparison = false := by
  unfold refusal? at hr
  split_ifs at hr
  · cases hr
    rfl
  · cases hpermits : c.window.permits p c.stamp ⟨h.bits, h.seconds⟩ (c.height + 1) with
    | error e =>
      rw [hpermits] at hr
      cases hr
    | ok permitted =>
      rw [hpermits] at hr
      cases permitted with
      | false =>
        cases hr
        rfl
      | true => cases hr

variable {r : Rules} {s : ChainStart} {hs measured released batch : List Header} {h : Header}
  {cause : AbortCause} {abort : Abort}

namespace Presync
variable {p p' : Presync}

/-- Nothing is written before all checks are passed. -/
theorem eq_of_step (hp : p.step r h = .ok (p', some cause)) : p' = p := by
  obtain ⟨c, -, rfl, -⟩ | ⟨-, hs⟩ := step_cases hp
  · rfl
  unfold store at hs
  split_ifs at hs
  · cases hs
  · exact (Prod.mk.inj hs).1.symm
  · cases hs

/-- A batch that aborts the pass leaves it where the accepted headers took it. -/
theorem Tracks.of_aborted_run (ht : p.Tracks r s hs)
    (hr : p.run r batch = (p', .ok (some abort))) :
    ∃ before h after, batch = before ++ h :: after ∧ p.accepted r batch = before ∧
      p'.Tracks r s (hs ++ before) ∧
      r.measuringVerdict s (hs ++ before) h = .ok (some abort.cause) ∧
      abort.height = s.height + (hs ++ before).length + 1 := by
  induction batch generalizing p hs with
  | nil => cases hr
  | cons h rest ih =>
    unfold Presync.run at hr
    have hverdict := ht.step_verdict h
    cases hp : p.step r h with
    | error e =>
      rw [hp] at hr
      cases hr
    | ok outcome =>
      obtain ⟨next, found⟩ := outcome
      rw [hp] at hr hverdict
      cases found with
      | some cause =>
        obtain ⟨rfl, hending⟩ := Prod.mk.inj hr
        cases hending
        refine ⟨[], h, rest, rfl, by rw [accepted, hp], ?_, ?_, ?_⟩
        · rw [eq_of_step hp, List.append_nil]
          exact ht
        · rw [List.append_nil]
          exact hverdict.symm
        · rw [List.append_nil, ht.height_eq]
      | none =>
        obtain ⟨before, x, after, rfl, haccepted, hnext, hx, hheight⟩ := ih (ht.step hp) hr
        rw [← List.append_cons] at hnext hx hheight
        refine ⟨h :: before, x, after, rfl, ?_, hnext, hx, hheight⟩
        rw [accepted, hp]
        exact congrArg (h :: ·) haccepted

end Presync

namespace Redownload
variable {d d' : Redownload}

/-- Only a header whose bit is looked for has been weighed when it is turned away. -/
theorem eq_of_step (hd : d.step r h = .ok (d', some cause)) :
    d' = if cause.isComparison then d.weigh h else d := by
  obtain ⟨c, hrefusal, rfl, hcause⟩ | ⟨-, hs⟩ := step_cases hd
  · cases hcause
    rw [Cursor.isComparison_of_refusal? hrefusal]
    rfl
  unfold store at hs
  split_ifs at hs
  · cases hs
  · cases hq : d.commitments.pop? with
    | none =>
      rw [hq] at hs
      cases hs
      rfl
    | some popped =>
      simp only [hq] at hs
      split_ifs at hs
      · cases hs
      · cases hs
        rfl

theorem Tracks.height_weighed (ht : d.Tracks r s measured hs released) (h : Header)
    (weighed : Bool) :
    (if weighed then d.weigh h else d).cursor.height = s.height + hs.length := by
  rw [← ht.height_eq]
  cases weighed <;> rfl

theorem Tracks.work_weighed (ht : d.Tracks r s measured hs released) (h : Header)
    (weighed : Bool) :
    (if weighed then d.weigh h else d).cursor.work =
      totalWork s.work (if weighed then hs ++ [h] else hs) := by
  have hwork : d.cursor.work = totalWork s.work hs := by
    rw [ht.cursor_eq, Cursor.work_follow]
    rfl
  cases weighed with
  | false => exact hwork
  | true =>
    rw [if_pos rfl, if_pos rfl, totalWork_append, ← hwork]
    rfl

/-- A batch that aborts the pass leaves it where the accepted headers took it, except that the header
that was turned away may have been weighed. -/
theorem Tracks.of_aborted_run (ht : d.Tracks r s measured hs released)
    (hr : (d.run r batch).ending = .ok (some abort)) :
    ∃ before h after e left, batch = before ++ h :: after ∧ d.accepted r batch = before ∧
      Redownload.Tracks r s measured (hs ++ before) left e ∧
      (d.run r batch).pass = (if abort.cause.isComparison then e.weigh h else e) ∧
      r.verifyingVerdict s measured (hs ++ before) h = .ok (some abort.cause) ∧
      abort.height = s.height + (hs ++ before).length + 1 := by
  induction batch generalizing d hs released with
  | nil => cases hr
  | cons h rest ih =>
    unfold Redownload.run at hr ⊢
    have hverdict := ht.step_verdict h
    cases hd : d.step r h with
    | error e =>
      rw [hd] at hr
      cases hr
    | ok outcome =>
      obtain ⟨next, found⟩ := outcome
      rw [hd] at hr hverdict
      cases found with
      | some cause =>
        cases hr
        refine ⟨[], h, rest, d, released, rfl, by rw [accepted, hd], ?_, eq_of_step hd, ?_, ?_⟩
        · rw [List.append_nil]
          exact ht
        · rw [List.append_nil]
          exact hverdict.symm
        · rw [List.append_nil, ht.height_eq]
      | none =>
        obtain ⟨before, x, after, e, left, rfl, haccepted, he, hpass, hx, hheight⟩ :=
          ih (ht.step hd) hr
        rw [← List.append_cons] at he hx hheight
        refine ⟨h :: before, x, after, e, left, rfl, ?_, he, hpass, hx, hheight⟩
        rw [accepted, hd]
        exact congrArg (h :: ·) haccepted

end Redownload

namespace Session
variable {t t' : Session}

theorem isFinal_of_abort? (ha : t.abort? = some abort) : t.isFinal = true := by
  unfold abort? at ha
  unfold isFinal
  cases hs : t.stage with
  | presync start pass => simp [hs] at ha
  | redownload start pass => simp [hs] at ha
  | final report => rfl

theorem isFinal_of_isRedownload (hs : t.isRedownload = true) : t.isFinal = false := by
  obtain ⟨start, pass, h⟩ := stage_of_isRedownload hs
  rw [isFinal, h]

/-- Only a run of the current pass through the batch aborts the session over a header. -/
theorem Step.of_abort {full : Bool} {reply : Reply} (hstep : t.Step batch full t' reply)
    (hopen : t.isFinal = false) (ha : t'.abort? = some abort)
    (hcause : abort.cause ≠ .incompleteMessage) :
    (∃ start pass pass', t.stage = .presync start pass ∧
      pass.run t.rules batch = (pass', .ok (some abort)) ∧ t' = t.finishPresync pass' abort) ∨
    (∃ start pass, t.stage = .redownload start pass ∧
      (pass.run t.rules batch).ending = .ok (some abort) ∧
      t' = t.finishRedownload (pass.run t.rules batch).pass (some abort)) := by
  cases hstep with
  | ignored =>
    rw [isFinal_of_abort? ha] at hopen
    cases hopen
  | presyncAborted hs hr =>
    cases ha
    exact .inl ⟨_, _, _, hs, hr, rfl⟩
  | redownloadAborted hs hr =>
    cases ha
    refine .inr ⟨_, _, hs, ?_, ?_⟩ <;> rw [hr]
  | presyncEnded =>
    cases ha
    exact absurd rfl hcause
  | redownloadEnded =>
    cases ha
    exact absurd rfl hcause
  | switched => cases ha
  | measuring => cases ha
  | completed => cases ha
  | verifying => cases ha

end Session

theorem Presync.step_of_skipped {p : Presync} (hr : p.cursor.refusal? r.params h = .ok none)
    (hskip : r.commitsAt (p.cursor.height + 1) = false) :
    p.step r h = .ok (⟨p.cursor.advance r.params h, p.commitments⟩, none) := by
  have hstore : p.store r h = (⟨p.cursor.advance r.params h, p.commitments⟩, none) :=
    if_pos (by rw [hskip]; rfl)
  rw [step, hr]
  exact congrArg Except.ok hstore

namespace Redownload
variable {d : Redownload} {a b : Header}

theorem step_of_skipped (hr : d.cursor.refusal? r.params h = .ok none)
    (hskip : r.commitsAt (d.cursor.height + 1) = false) :
    d.step r h = .ok (d.hold r h, none) := by
  have hstore : d.store r h = (d.hold r h, none) := if_pos (by simp [hskip])
  rw [step, hr]
  exact congrArg Except.ok hstore

theorem step_of_empty (hr : d.cursor.refusal? r.params h = .ok none)
    (hcommit : r.commitsAt (d.cursor.height + 1) = true) (hempty : d.commitments = .empty)
    (hshort : d.cursor.work.satAdd h.bits.work < r.minWork) :
    d.step r h = .ok (d.weigh h, some .commitmentOverrun) := by
  have hbelow : (d.weigh h).isReleasing r = false := decide_eq_false (Nat.not_le_of_lt hshort)
  have hstore : d.store r h = (d.weigh h, some .commitmentOverrun) := by
    rw [store, if_neg (by simp [hbelow, hcommit]), hempty]
    rfl
  rw [step, hr]
  exact congrArg Except.ok hstore

/-- Without bits a pass is over at the first commitment height, here the second one. -/
theorem run_pair_of_empty (hempty : d.commitments = .empty) (ha : a.parent = d.cursor.id)
    (hb : b.parent = a.id)
    (hlow : d.cursor.height + 2 ≤ r.params.switchHeight.toNat + r.params.window)
    (hskip : r.commitsAt (d.cursor.height + 1) = false)
    (hcommit : r.commitsAt (d.cursor.height + 2) = true)
    (hshort : totalWork d.cursor.work [a, b] < r.minWork) :
    d.accepted r [a, b] = [a] ∧ ∃ ready e,
      d.run r [a, b] = ⟨e, ready, .ok (some ⟨.commitmentOverrun, d.cursor.height + 2⟩)⟩ ∧
      e.cursor.height = d.cursor.height + 1 ∧
      e.cursor.work = totalWork d.cursor.work [a, b] := by
  have hfirst : d.step r a = .ok (d.hold r a, none) :=
    step_of_skipped (Cursor.refusal?_of_link ha (by omega)) hskip
  obtain ⟨ready, e, hrelease, hcursor, hnone⟩ :
      ∃ ready e, (d.hold r a).release ((d.hold r a).releasable r) = (ready, e) ∧
        e.cursor = d.cursor.advance r.params a ∧ e.commitments = .empty := by
    obtain ⟨left, -, hrelease⟩ := (d.hold r a).release_eq ((d.hold r a).releasable r)
    exact ⟨_, _, hrelease, rfl, hempty⟩
  have hsecond : e.step r b = .ok (e.weigh b, some .commitmentOverrun) := by
    apply step_of_empty _ _ hnone
    · rw [hcursor]
      exact hshort
    · rw [hcursor]
      exact Cursor.refusal?_of_link hb hlow
    · rw [hcursor]
      exact hcommit
  have haccepted : d.accepted r [a, b] = [a] := by
    simp only [accepted, hfirst, hrelease, hsecond]
  have hrun : d.run r [a, b] =
      ⟨e.weigh b, ready, .ok (some ⟨.commitmentOverrun, d.cursor.height + 2⟩)⟩ := by
    simp only [run, hfirst, hrelease, hsecond, hcursor, List.append_nil]
    rfl
  refine ⟨haccepted, ready, _, hrun, ?_, ?_⟩
  · rw [weigh, hcursor]
    rfl
  · rw [weigh, hcursor]
    rfl

end Redownload

namespace Run

/-- A first pass that one header completes stores no bit if its height is not committed to. A lighter
chain is then turned away at the next height, if that one is. -/
theorem overruns_at_second (c : ChainStart) (minWork : UInt256) (params : Params)
    (config : Config) (now : Int) (words : List UInt64) (key : Digest) {x a b : Header}
    (hx : x.parent = c.id) (ha : a.parent = c.id) (hb : b.parent = a.id)
    (hlow : c.height + 2 ≤ params.switchHeight.toNat + params.window)
    (hskip : (Rules.start c minWork params config now words key).commitsAt (c.height + 1) = false)
    (hcommit : (Rules.start c minWork params config now words key).commitsAt (c.height + 2) = true)
    (henough : minWork ≤ totalWork c.work [x]) (hshort : totalWork c.work [a, b] < minWork) :
    let run := (start (Session.start c minWork params config now words key)).feed [.ofBatch [x]]
    let next := run.call (.ofBatch [a, b])
    run.session.isRedownload = true ∧
      next.session.abort? = some ⟨.commitmentOverrun, c.height + 2⟩ ∧ next.verified = [a] ∧
      next.session.redownloadHeight = c.height + 1 ∧
      next.session.redownloadWork = totalWork c.work [a, b] := by
  intro run next
  let r := Rules.start c minWork params config now words key
  let s := Session.start c minWork params config now words key
  let p : Presync := ⟨(Cursor.start params c).advance params x, .empty⟩
  let d := Redownload.start r c p
  have hmeasured : (Presync.start r c).run r [x] = (p, .ok none) := by
    rw [Presync.run, Presync.step_of_skipped (Cursor.refusal?_of_link hx _) hskip]
    · rfl
    · exact Nat.le_of_succ_le hlow
  have hswitch : s.process [x] true = (⟨r, .redownload c d⟩, .ok ⟨true, true, []⟩) := by
    change Session.processPresync ⟨r, _⟩ c (Presync.start r c) [x] true = _
    rw [Session.processPresync, hmeasured]
    exact if_pos henough
  obtain ⟨haccepted, ready, e, hpair, hheight, hwork⟩ :=
    Redownload.run_pair_of_empty (d := d) (r := r) rfl ha hb hlow hskip hcommit hshort
  have habort : (⟨r, .redownload c d⟩ : Session).process [a, b] true =
      (Session.finishRedownload ⟨r, .redownload c d⟩ e
        (some ⟨.commitmentOverrun, c.height + 2⟩), .ok .failure) := by
    change Session.processRedownload ⟨r, _⟩ c d [a, b] true = _
    rw [Session.processRedownload, hpair]
    rfl
  have hrun : run = (start s).record (.ofBatch [x]) ⟨r, .redownload c d⟩ ⟨true, true, []⟩ := by
    change (start s).call (.ofBatch [x]) = _
    exact call_of_process rfl hswitch
  have hnext : next = run.record (.ofBatch [a, b]) (Session.finishRedownload ⟨r, .redownload c d⟩ e
      (some ⟨.commitmentOverrun, c.height + 2⟩)) .failure := by
    apply call_of_process
    · rw [hrun]
      rfl
    · rw [hrun]
      exact habort
  rw [hnext, hrun]
  refine ⟨rfl, rfl, ?_, hheight, hwork⟩
  exact haccepted

/-- A session that commits to every second height, whose peer first shows a header with enough work
and then begins a lighter chain. -/
theorem overruns_at_second_height {c : ChainStart} {x a b : Header} (hx : x.parent = c.id)
    (ha : a.parent = c.id) (hb : b.parent = a.id) (hheight : c.height = 0)
    (henough : UInt256.wrap 4096 ≤ totalWork c.work [x])
    (hshort : totalWork c.work [a, b] < UInt256.wrap 4096) :
    let config : Config := { commitmentPeriod := 2 }
    let session := Session.start c (.wrap 4096) Params.regtest config 1700000000 [] .zero
    let run := (start session).feed [.ofBatch [x]]
    let next := run.call (.ofBatch [a, b])
    run.session.isRedownload = true ∧
      next.session.abort? = some ⟨.commitmentOverrun, 2⟩ ∧ next.verified = [a] ∧
      next.session.redownloadHeight = 1 ∧
      next.session.redownloadWork = totalWork c.work [a, b] := by
  intro config session run next
  let r := Rules.start c (.wrap 4096) Params.regtest config 1700000000 [] .zero
  have hperiod : r.period = 2 := rfl
  have hoffset : r.offset = 0 := rfl
  have hskip : r.commitsAt (c.height + 1) = false := by
    rw [Rules.commitsAt, hperiod, hoffset, hheight]
    rfl
  have hcommit : r.commitsAt (c.height + 2) = true := by
    rw [Rules.commitsAt, hperiod, hoffset, hheight]
    rfl
  have h := overruns_at_second c (.wrap 4096) Params.regtest config 1700000000 [] .zero hx ha hb
    (by rw [hheight]; decide) hskip hcommit henough hshort
  rw [hheight] at h
  exact h

/-- A call that aborts the session over a header accepts what came before that header. The work of
the first pass is then that of the accepted headers. So are the height and the work of the second
pass, but for a header that was turned away when its bit was looked for: its work is counted. -/
theorem tallies_after_abort (s : ChainStart) (minWork : UInt256) (params : Params)
    (config : Config) (now : Int) (words : List UInt64) (key : Digest) (ms : List Message)
    (m : Message) :
    let r := Rules.start s minWork params config now words key
    let run := (start (Session.start s minWork params config now words key)).feed ms
    let next := run.call m
    run.session.isFinal = false → ∀ abort, next.session.abort? = some abort →
      abort.cause ≠ .incompleteMessage → ∃ before h after, m.headers = before ++ h :: after ∧
        (run.session.isPresync = true → next.measured = run.measured ++ before ∧
          r.measuringVerdict s next.measured h = .ok (some abort.cause) ∧
          abort.height = s.height + next.measured.length + 1 ∧
          next.session.presyncWork = totalWork s.work next.measured) ∧
        (run.session.isRedownload = true → next.verified = run.verified ++ before ∧
          r.verifyingVerdict s run.measured next.verified h = .ok (some abort.cause) ∧
          abort.height = s.height + next.verified.length + 1 ∧
          next.session.redownloadHeight = s.height + next.verified.length ∧
          next.session.redownloadWork = totalWork s.work
            (if abort.cause.isComparison then next.verified ++ [h] else next.verified)) := by
  intro r run next hopen abort habort hcause
  have ht : run.Tracks r s := (tracks_start s minWork params config now words key).feed ms
  obtain ⟨e, he⟩ | ⟨t, reply, -, hstep, he⟩ := run.call_cases m
  · rw [show next = _ from he] at habort
    rw [Session.isFinal_of_abort? habort] at hopen
    cases hopen
  rw [show next = _ from he] at habort ⊢
  obtain ⟨origin, pass, pass', hs, hr, rfl⟩ | ⟨origin, pass, hs, hr, rfl⟩ :=
    hstep.of_abort hopen habort hcause
  · obtain ⟨rfl, hpass, -⟩ := ht.holds_of_stage hs
    rw [ht.rules_eq] at hr
    obtain ⟨before, h, after, hsplit, haccepted, hpass', hverdict, hheight⟩ :=
      hpass.of_aborted_run hr
    have hmeasured : (run.record m (run.session.finishPresync pass' abort) reply).measured =
        run.measured ++ before := by
      simp [record, Session.measuredBy, hs, ht.rules_eq, haccepted]
    refine ⟨before, h, after, hsplit, ?_, ?_⟩
    · intro _
      rw [hmeasured]
      exact ⟨rfl, hverdict, hheight, hpass'.work_eq⟩
    · intro hre
      simp [Session.isRedownload, hs] at hre
  · obtain ⟨rfl, -, -, hpass, -⟩ := ht.holds_of_stage hs
    rw [ht.rules_eq] at hr ⊢
    obtain ⟨before, h, after, e, left, hsplit, haccepted, hreached, hlast, hverdict, hheight⟩ :=
      hpass.of_aborted_run hr
    rw [hlast]
    refine ⟨before, h, after, hsplit, ?_, ?_⟩
    · intro hpre
      simp [Session.isPresync, hs] at hpre
    · intro _
      have hverified : (run.record m (run.session.finishRedownload
          (if abort.cause.isComparison then e.weigh h else e) (some abort)) reply).verified =
          run.verified ++ before := by
        simp [record, Session.verifiedBy, hs, ht.rules_eq, haccepted]
      rw [hverified]
      exact ⟨rfl, hverdict, hheight, hreached.height_weighed h _, hreached.work_weighed h _⟩

/-- A session that tells the work of the header that it accepted and of the one that it did not. -/
theorem tallies_after_abort_overrun :
    let g : Header := ⟨1, .zero, .zero, 1700000000, ⟨0x200f0f0f⟩, 0⟩
    let x : Header := ⟨4, g.id, .zero, 1700000060, ⟨0x1d00ffff⟩, 0⟩
    let a : Header := ⟨4, g.id, .zero, 1700000060, ⟨0x200f0f0f⟩, 1⟩
    let b : Header := ⟨4, a.id, .zero, 1700000120, ⟨0x200f0f0f⟩, 1⟩
    let c : ChainStart := ⟨g.id, g, 0, g.bits.work, g.seconds, [g.stamp], [g.id]⟩
    let config : Config := { commitmentPeriod := 2 }
    let r := Rules.start c (.wrap 4096) Params.regtest config 1700000000 [] .zero
    let session := Session.start c (.wrap 4096) Params.regtest config 1700000000 [] .zero
    let run := (start session).feed [.ofBatch [x]]
    let next := run.call (.ofBatch [a, b])
    run.session.isFinal = false ∧ run.session.isRedownload = true ∧
      next.session.abort? = some ⟨.commitmentOverrun, 2⟩ ∧
      ∃ before h after, [a, b] = before ++ h :: after ∧ next.verified = run.verified ++ before ∧
        r.verifyingVerdict c run.measured next.verified h = .ok (some .commitmentOverrun) ∧
        next.session.redownloadHeight = c.height + next.verified.length ∧
        next.session.redownloadWork = totalWork c.work (next.verified ++ [h]) := by
  intro g x a b c
  have hx : x.parent = c.id := rfl
  have ha : a.parent = c.id := rfl
  have hb : b.parent = a.id := rfl
  have hheight : c.height = 0 := rfl
  have henough : UInt256.wrap 4096 ≤ totalWork c.work [x] := by decide +kernel
  have hshort : totalWork c.work [a, b] < UInt256.wrap 4096 := by decide +kernel
  -- The session itself is not evaluated: no hash of a header has to be known.
  clear_value g x a b c
  dsimp only
  obtain ⟨hre, habort, -, -, -⟩ :=
    overruns_at_second_height hx ha hb hheight henough hshort
  have hopen := Session.isFinal_of_isRedownload hre
  obtain ⟨before, h, after, hsplit, -, hsecond⟩ := tallies_after_abort c (.wrap 4096) Params.regtest
    { commitmentPeriod := 2 } 1700000000 [] .zero [.ofBatch [x]] (.ofBatch [a, b]) hopen _ habort
    (by nofun)
  obtain ⟨haccepted, hverdict, -, htold, hwork⟩ := hsecond hre
  exact ⟨hopen, hre, habort, before, h, after, hsplit, haccepted, hverdict, htold, hwork⟩

/-- The second header of that lighter chain is turned away, yet its work is told. -/
theorem rejected_header_weighed :
    let g : Header := ⟨1, .zero, .zero, 1700000000, ⟨0x200f0f0f⟩, 0⟩
    let x : Header := ⟨4, g.id, .zero, 1700000060, ⟨0x1d00ffff⟩, 0⟩
    let a : Header := ⟨4, g.id, .zero, 1700000060, ⟨0x200f0f0f⟩, 1⟩
    let b : Header := ⟨4, a.id, .zero, 1700000120, ⟨0x200f0f0f⟩, 1⟩
    let c : ChainStart := ⟨g.id, g, 0, g.bits.work, g.seconds, [g.stamp], [g.id]⟩
    let config : Config := { commitmentPeriod := 2 }
    let session := Session.start c (.wrap 4096) Params.regtest config 1700000000 [] .zero
    let run := (start session).feed [.ofBatch [x]]
    let next := run.call (.ofBatch [a, b])
    run.session.isRedownload = true ∧
      next.session.abort? = some ⟨.commitmentOverrun, 2⟩ ∧ next.verified = [a] ∧
      next.session.redownloadHeight = c.height + next.verified.length ∧
      next.session.redownloadWork ≠ totalWork c.work next.verified := by
  intro g x a b c
  have hx : x.parent = c.id := rfl
  have ha : a.parent = c.id := rfl
  have hb : b.parent = a.id := rfl
  have hheight : c.height = 0 := rfl
  have henough : UInt256.wrap 4096 ≤ totalWork c.work [x] := by decide +kernel
  have hshort : totalWork c.work [a, b] < UInt256.wrap 4096 := by decide +kernel
  have hmore : totalWork c.work [a, b] ≠ totalWork c.work [a] := by decide +kernel
  clear_value g x a b c
  dsimp only
  obtain ⟨hre, habort, hverified, htold, hwork⟩ :=
    overruns_at_second_height hx ha hb hheight henough hshort
  refine ⟨hre, habort, hverified, ?_, ?_⟩
  · rw [hverified, hheight]
    exact htold
  · rw [hwork, hverified]
    exact hmore

end Run
end HeaderSync
