import HeaderSync.Proofs.Session.Step

/-!
# Runs of a session

A run feeds messages to a session and notes which headers each pass accepted and what the replies
were. A call without a reply ends the run, which then stays as it was before that call. `Tracks` is
the invariant of every run that begins with a new session: it holds the invariants of the passes
and says what is left of them when the session is finished.
-/

namespace HeaderSync

/-- A batch of headers; `full` tells whether the peer may have more. -/
structure Message where
  headers : List Header
  full : Bool

def Message.ofBatch (batch : List Header) : Message := ⟨batch, true⟩

structure Run where
  session : Session
  /-- The headers accepted in the first pass. -/
  measured : List Header
  /-- The headers accepted in the second pass. -/
  verified : List Header
  replies : List Reply
  /-- Why the last call had no reply. -/
  fault : Option Retarget.Error

namespace Run

def start (s : Session) : Run :=
  { session := s, measured := [], verified := [], replies := [], fault := none }

def released (run : Run) : List Header := run.replies.flatMap Reply.headers

def record (run : Run) (m : Message) (s : Session) (reply : Reply) : Run :=
  { run with
    session := s
    measured := run.measured ++ run.session.measuredBy m.headers
    verified := run.verified ++ run.session.verifiedBy m.headers
    replies := run.replies ++ [reply] }

def call (run : Run) (m : Message) : Run :=
  if run.fault.isSome then run
  else
    match run.session.process m.headers m.full with
    | (_, .error e) => { run with fault := some e }
    | (s, .ok reply) => run.record m s reply

def feed (run : Run) (ms : List Message) : Run := ms.foldl call run

/-- The headers `measured`, `verified` and `released` that a session with the rules `r`, started at
`s`, has dealt with when it is in a stage. -/
def Holds (r : Rules) (s : ChainStart) (measured verified released : List Header) : Stage → Prop
  | .presync start pass =>
    start = s ∧ pass.Tracks r s measured ∧ verified = [] ∧ released = []
  | .redownload start pass =>
    start = s ∧ (Cursor.start r.params s).Admits r.params measured ∧
      r.minWork ≤ totalWork s.work measured ∧
      pass.Tracks r s measured verified released ∧ (verified = [] ∨ pass.isReleasing r = false)
  | .final report =>
    Redownload.Vouched r s measured verified ∧ released <+: verified ∧
      (report.abort = none → released = verified)

structure Tracks (r : Rules) (s : ChainStart) (run : Run) : Prop where
  rules_eq : run.session.rules = r
  holds : Holds r s run.measured run.verified run.released run.session.stage

variable {r : Rules} {s : ChainStart} {run : Run} {m : Message} {t : Session} {reply : Reply}

theorem feed_append (run : Run) (xs ys : List Message) :
    run.feed (xs ++ ys) = (run.feed xs).feed ys := List.foldl_append

@[simp] theorem released_record (run : Run) (m : Message) (t : Session) (reply : Reply) :
    (run.record m t reply).released = run.released ++ reply.headers := by
  simp [released, record]

/-- No header of an ignored batch is accepted. -/
theorem record_ignored (run : Run) (hi : m.headers = [] ∨ run.session.isFinal = true) :
    (run.record m run.session .failure).measured = run.measured ∧
      (run.record m run.session .failure).verified = run.verified := by
  rcases hi with hnil | hfinal
  · cases hs : run.session.stage <;>
      simp [record, Session.measuredBy, Session.verifiedBy, hs, hnil, Presync.accepted,
        Redownload.accepted]
  · obtain ⟨report, hs⟩ := Session.stage_of_isFinal hfinal
    simp [record, Session.measuredBy, Session.verifiedBy, hs]

theorem call_of_process (hf : run.fault = none)
    (hp : run.session.process m.headers m.full = (t, .ok reply)) :
    run.call m = run.record m t reply := by
  simp [call, hf, hp]

/-- A call stops at a fault, or is recorded as one step of the session. -/
theorem call_cases (run : Run) (m : Message) :
    (∃ e, run.call m = { run with fault := some e }) ∨
      ∃ t reply, run.fault = none ∧ run.session.Step m.headers m.full t reply ∧
        run.call m = run.record m t reply := by
  unfold call
  cases hf : run.fault with
  | some e => exact .inl ⟨e, by cases run; simp_all⟩
  | none =>
    cases hp : run.session.process m.headers m.full with
    | mk t outcome =>
      cases outcome with
      | error e => exact .inl ⟨e, by simp⟩
      | ok reply => exact .inr ⟨t, reply, rfl, Session.step_of_process hp, by simp⟩

/-- What every step of a session keeps holds after any messages. -/
theorem feed_induction {I : Run → Prop} (hrun : I run)
    (hfault : ∀ run e, I run → I { run with fault := some e })
    (hstep : ∀ run m t reply, I run → run.session.Step m.headers m.full t reply →
      I (run.record m t reply)) (ms : List Message) : I (run.feed ms) := by
  induction ms generalizing run with
  | nil => exact hrun
  | cons m ms ih =>
    refine ih ?_
    obtain ⟨e, he⟩ | ⟨t, reply, -, ht, he⟩ := run.call_cases m
    · exact he ▸ hfault run e hrun
    · exact he ▸ hstep run m t reply hrun ht

namespace Tracks

theorem holds_of_stage (ht : run.Tracks r s) {stage : Stage} (hs : run.session.stage = stage) :
    Holds r s run.measured run.verified run.released stage := hs ▸ ht.holds

/-- A call that ends the session in the first pass leaves nothing verified. -/
theorem record_finishPresync (ht : run.Tracks r s) {start : ChainStart} {pass : Presync}
    (hs : run.session.stage = .presync start pass) (pass' : Presync) (abort : Abort)
    (hreply : reply.headers = []) :
    (run.record m (run.session.finishPresync pass' abort) reply).Tracks r s := by
  obtain ⟨-, -, hver, hrel⟩ := ht.holds_of_stage hs
  have hverified : (run.record m (run.session.finishPresync pass' abort) reply).verified = [] := by
    simp [record, Session.verifiedBy, hs, hver]
  refine ⟨ht.rules_eq, ?_⟩
  rw [hverified, released_record, hrel, hreply]
  exact ⟨Redownload.vouched_nil _ _ _, List.nil_prefix, fun _ => rfl⟩

/-- A call in the first pass that is not aborted accepts its whole batch. -/
theorem presync_run (ht : run.Tracks r s) {start : ChainStart} {pass pass' : Presync}
    (hs : run.session.stage = .presync start pass)
    (hr : pass.run run.session.rules m.headers = (pass', .ok none)) :
    start = s ∧ pass'.Tracks r s (run.record m t reply).measured ∧
      (run.record m t reply).measured = run.measured ++ m.headers ∧
      (run.record m t reply).verified = [] ∧ run.released = [] := by
  obtain ⟨rfl, hpass, hver, hrel⟩ := ht.holds_of_stage hs
  rw [ht.rules_eq] at hr
  obtain ⟨hacc, hpass'⟩ := hpass.of_run hr
  have hmeasured : (run.record m t reply).measured = run.measured ++ m.headers := by
    simp [record, Session.measuredBy, hs, ht.rules_eq, hacc]
  refine ⟨rfl, ?_, hmeasured, ?_, hrel⟩
  · rw [hmeasured]
    exact hpass'
  · simp [record, Session.verifiedBy, hs, hver]

/-- A call in the second pass that is not aborted accepts its whole batch. -/
theorem redownload_run (ht : run.Tracks r s) {start : ChainStart} {pass pass' : Redownload}
    {released : List Header} (hs : run.session.stage = .redownload start pass)
    (hr : pass.run run.session.rules m.headers = ⟨pass', released, .ok none⟩) :
    (run.record m t reply).measured = run.measured ∧
      (run.record m t reply).verified = run.verified ++ m.headers ∧
      pass'.Tracks r s run.measured (run.verified ++ m.headers) (run.released ++ released) := by
  obtain ⟨-, -, -, hpass, -⟩ := ht.holds_of_stage hs
  obtain ⟨d, more, hd, hok⟩ := hpass.run m.headers
  rw [ht.rules_eq] at hr
  obtain ⟨hacc, rfl, rfl⟩ : pass.accepted r m.headers = m.headers ∧ pass' = d ∧
      released = more := by
    have hrun := hok (by rw [hr])
    rw [hr] at hrun
    exact hrun
  refine ⟨by simp [record, Session.measuredBy, hs], ?_, ?_⟩
  · simp [record, Session.verifiedBy, hs, ht.rules_eq, hacc]
  · rw [← hacc]
    exact hd

/-- An aborted call in the second pass releases nothing, and what it accepted is vouched for. -/
theorem record_redownloadAborted (ht : run.Tracks r s) {start : ChainStart} {pass : Redownload}
    (hs : run.session.stage = .redownload start pass) (pass' : Redownload) (abort : Abort) :
    (run.record m (run.session.finishRedownload pass' abort) .failure).Tracks r s := by
  obtain ⟨-, -, -, hpass, -⟩ := ht.holds_of_stage hs
  obtain ⟨d, more, hd, -⟩ := hpass.run m.headers
  have hmeasured : (run.record m (run.session.finishRedownload pass' abort) .failure).measured =
      run.measured := by simp [record, Session.measuredBy, hs]
  have hverified : (run.record m (run.session.finishRedownload pass' abort) .failure).verified =
      run.verified ++ pass.accepted r m.headers := by
    simp [record, Session.verifiedBy, hs, ht.rules_eq]
  refine ⟨ht.rules_eq, ?_⟩
  rw [hmeasured, hverified, released_record]
  refine ⟨hd.toVouched, ?_, fun hn => by cases hn⟩
  rw [show Reply.failure.headers = [] from rfl, List.append_nil]
  exact hpass.released_prefix.trans (List.prefix_append _ _)

/-- A session that ends in the second pass has released a prefix of what it accepted, and all of it
if nothing is held back. -/
theorem holds_finishRedownload {pass : Redownload} {measured verified released : List Header}
    (hp : pass.Tracks r s measured verified released) (abort : Option Abort)
    (hempty : abort = none → pass.buffer.isEmpty = true) (presyncWork redownloadWork : UInt256)
    (height : Nat) :
    Holds r s measured verified released
      (.final ⟨abort, presyncWork, height, redownloadWork⟩) := by
  refine ⟨hp.toVouched, hp.released_prefix, fun hn => ?_⟩
  have hsize : pass.buffer.size = 0 := of_decide_eq_true (hempty hn)
  exact hp.released_prefix.eq_of_length (by have := hp.length_released; omega)

theorem record_step (ht : run.Tracks r s)
    (hstep : run.session.Step m.headers m.full t reply) : (run.record m t reply).Tracks r s := by
  cases hstep with
  | ignored hi =>
    obtain ⟨hmeasured, hver⟩ := run.record_ignored hi
    refine ⟨ht.rules_eq, ?_⟩
    rw [hmeasured, hver, released_record, show Reply.failure.headers = [] from rfl,
      List.append_nil]
    exact ht.holds
  | presyncAborted hs hr => exact ht.record_finishPresync hs _ _ rfl
  | presyncEnded hb hs hr hw hf => exact ht.record_finishPresync hs _ _ rfl
  | switched hb hs hr hw =>
    obtain ⟨rfl, hpass, -, hver, hrel⟩ := ht.presync_run hs hr
    refine ⟨ht.rules_eq, ?_⟩
    rw [hver, released_record, hrel]
    refine ⟨rfl, hpass.admitted, ?_, ?_, .inl rfl⟩
    · rw [← hpass.work_eq, ← ht.rules_eq]
      exact hw
    · rw [ht.rules_eq]
      exact Redownload.tracks_start hpass
  | measuring hb hs hr hw hf =>
    obtain ⟨rfl, hpass, -, hver, hrel⟩ := ht.presync_run hs hr
    refine ⟨ht.rules_eq, ?_⟩
    rw [hver, released_record, hrel]
    exact ⟨rfl, hpass, rfl, rfl⟩
  | redownloadAborted hs hr => exact ht.record_redownloadAborted hs _ _
  | completed hb hs hr hw =>
    obtain ⟨hmeasured, hver, hpass⟩ := ht.redownload_run hs hr
    refine ⟨ht.rules_eq, ?_⟩
    rw [hmeasured, hver, released_record]
    rw [Bool.and_eq_true] at hw
    exact holds_finishRedownload hpass none (fun _ => hw.1) _ _ _
  | verifying hb hs hr hw hf =>
    obtain ⟨rfl, hadmits, henough, -⟩ := ht.holds_of_stage hs
    obtain ⟨hmeasured, hver, hpass⟩ := ht.redownload_run hs hr
    refine ⟨ht.rules_eq, ?_⟩
    rw [hmeasured, hver, released_record]
    refine ⟨rfl, hadmits, henough, hpass, .inr (Bool.eq_false_iff.mpr fun hrel => ?_)⟩
    -- With enough work the session would be complete.
    rw [ht.rules_eq, hpass.isComplete_iff.mpr (hpass.isReleasing_iff.mp hrel)] at hw
    cases hw
  | redownloadEnded hb hs hr hw hf =>
    obtain ⟨hmeasured, hver, hpass⟩ := ht.redownload_run hs hr
    refine ⟨ht.rules_eq, ?_⟩
    rw [hmeasured, hver, released_record]
    exact holds_finishRedownload hpass _ (fun hn => by cases hn) _ _ _

theorem feed (ht : run.Tracks r s) (ms : List Message) : (run.feed ms).Tracks r s :=
  feed_induction ht (fun _ _ h => ⟨h.rules_eq, h.holds⟩) (fun _ _ _ _ h hs => h.record_step hs) ms

theorem call (ht : run.Tracks r s) (m : Message) : (run.call m).Tracks r s := ht.feed [m]

theorem vouched (ht : run.Tracks r s) :
    Redownload.Vouched r s run.measured run.verified := by
  cases hs : run.session.stage with
  | presync origin pass =>
    obtain ⟨-, -, hver, -⟩ := ht.holds_of_stage hs
    rw [hver]
    exact Redownload.vouched_nil r s run.measured
  | redownload origin pass =>
    obtain ⟨-, -, -, hpass, -⟩ := ht.holds_of_stage hs
    exact hpass.toVouched
  | final report => exact (ht.holds_of_stage hs).1

theorem released_prefix (ht : run.Tracks r s) : run.released <+: run.verified := by
  cases hs : run.session.stage with
  | presync origin pass =>
    obtain ⟨-, -, -, hrel⟩ := ht.holds_of_stage hs
    rw [hrel]
    exact List.nil_prefix
  | redownload origin pass =>
    obtain ⟨-, -, -, hpass, -⟩ := ht.holds_of_stage hs
    exact hpass.released_prefix
  | final report => exact (ht.holds_of_stage hs).2.1

theorem released_eq_of_final (ht : run.Tracks r s) (hf : run.session.isFinal = true)
    (ha : run.session.abort? = none) : run.released = run.verified := by
  obtain ⟨report, hs⟩ := Session.stage_of_isFinal hf
  rw [Session.abort?, hs] at ha
  exact (ht.holds_of_stage hs).2.2 ha

end Tracks

theorem tracks_start (s : ChainStart) (minWork : UInt256) (params : Params) (config : Config)
    (now : Int) (words : List UInt64) (key : Digest) :
    (start (Session.start s minWork params config now words key)).Tracks
      (Rules.start s minWork params config now words key) s :=
  ⟨rfl, rfl, Presync.tracks_start _ s, rfl, rfl⟩

theorem call_of_final (hf : run.fault = none) (hfinal : run.session.isFinal = true) (m : Message) :
    run.session.process m.headers m.full = (run.session, .ok .failure) ∧
      run.call m = run.record m run.session .failure := by
  have hprocess : run.session.process m.headers m.full = (run.session, .ok .failure) := by
    unfold Session.process
    cases hs : run.session.stage <;> simp_all [Session.isFinal]
  exact ⟨hprocess, call_of_process hf hprocess⟩

/-- A finished session stays as it is and releases nothing more. -/
theorem feed_of_final (hf : run.fault = none) (hfinal : run.session.isFinal = true)
    (ms : List Message) :
    (run.feed ms).released = run.released := by
  induction ms generalizing run with
  | nil => rfl
  | cons m ms ih =>
    have hcall := (call_of_final hf hfinal m).2
    have hnext : (run.call m).fault = none ∧ (run.call m).session.isFinal = true := by
      rw [hcall]
      exact ⟨hf, hfinal⟩
    change ((run.call m).feed ms).released = run.released
    rw [ih hnext.1 hnext.2, hcall, released_record]
    exact List.append_nil _

/-- As long as the session goes on, every header that was fed has been accepted by one of the
passes. -/
theorem fed_eq (ht : run.Tracks r s) (hm : run.measured = []) (hv : run.verified = [])
    (ms : List Message) (hf : (run.feed ms).fault = none)
    (hopen : (run.feed ms).session.isFinal = false) :
    ms.flatMap Message.headers = (run.feed ms).measured ++ (run.feed ms).verified := by
  induction ms using List.reverseRecOn with
  | nil => simp [feed, hm, hv]
  | append_singleton ms m ih =>
    have hcall : run.feed (ms ++ [m]) = (run.feed ms).call m := feed_append run ms [m]
    have hms : (run.feed ms).Tracks r s := ht.feed ms
    rw [List.flatMap_append, List.flatMap_singleton]
    obtain ⟨e, he⟩ | ⟨t, reply, hnone, hstep, he⟩ := (run.feed ms).call_cases m
    · rw [hcall, he] at hf
      cases hf
    · have hlast : t.isFinal = false := by rwa [hcall, he] at hopen
      have hbefore : (run.feed ms).session.isFinal = false → ms.flatMap Message.headers =
          (run.feed ms).measured ++ (run.feed ms).verified := fun ho => ih hnone ho
      rw [hcall, he]
      cases hstep with
      | ignored hi =>
        obtain hnil | hfinal := hi
        · obtain ⟨hmeasured, hver⟩ := (run.feed ms).record_ignored (.inl hnil)
          rw [hbefore hlast, hnil, List.append_nil, hmeasured, hver]
        · rw [hfinal] at hlast
          cases hlast
      | switched hb hs hr hw =>
        obtain ⟨-, -, hmeasured, hver, -⟩ := hms.presync_run hs hr
        rw [hmeasured, hver, hbefore (by simp [Session.isFinal, hs]),
          (hms.holds_of_stage hs).2.2.1, List.append_nil, List.append_nil]
      | measuring hb hs hr hw hfull =>
        obtain ⟨-, -, hmeasured, hver, -⟩ := hms.presync_run hs hr
        rw [hmeasured, hver, hbefore (by simp [Session.isFinal, hs]),
          (hms.holds_of_stage hs).2.2.1, List.append_nil, List.append_nil]
      | verifying hb hs hr hw hfull =>
        obtain ⟨hmeasured, hver, -⟩ := hms.redownload_run hs hr
        rw [hmeasured, hver, hbefore (by simp [Session.isFinal, hs]), List.append_assoc]
      | presyncAborted hs hr => simp [Session.isFinal, Session.finishPresync] at hlast
      | presyncEnded hb hs hr hw hfull => simp [Session.isFinal, Session.finishPresync] at hlast
      | redownloadAborted hs hr => simp [Session.isFinal, Session.finishRedownload] at hlast
      | completed hb hs hr hw => simp [Session.isFinal, Session.finishRedownload] at hlast
      | redownloadEnded hb hs hr hw hfull =>
        simp [Session.isFinal, Session.finishRedownload] at hlast

end Run
end HeaderSync
