import HeaderSync.Proofs.Session.Answer
import HeaderSync.Proofs.Session.Verdict

/-!
# The first bad header decides

A run of headers is clean under a verdict if each of them is accepted after the ones before it. A
pass that has accepted a clean run ends a batch with the first header that is not accepted, so an
abort names the cause and the height of the first offending header of everything fed in that phase,
wherever the batches were cut.
-/

namespace HeaderSync

abbrev Verdict := List Header → Header → Except Retarget.Error (Option AbortCause)

namespace Verdict
variable {v : Verdict} {base : Nat} {fed : List Header} {h : Header}

def Clean (v : Verdict) (hs : List Header) : Prop :=
  ∀ before h, before ++ [h] <+: hs → v before h = .ok none

/-- The batch holds the first offending header of the phase, where the headers `fed` came before the
batch, and the abort names its cause and its height, counted from `base`. -/
def FirstOffence (v : Verdict) (base : Nat) (fed batch : List Header) (abort : Abort) : Prop :=
  ∃ before h after, batch = before ++ h :: after ∧ v.Clean (fed ++ before) ∧
    v (fed ++ before) h = .ok (some abort.cause) ∧
    abort.height = base + (fed ++ before).length + 1

def judge (v : Verdict) (base : Nat) (fed : List Header) :
    List Header → Except Retarget.Error (Option Abort)
  | [] => .ok none
  | h :: rest =>
    match v fed h with
    | .error e => .error e
    | .ok (some cause) => .ok (some ⟨cause, base + fed.length + 1⟩)
    | .ok none => judge v base (fed ++ [h]) rest

theorem clean_nil (v : Verdict) : v.Clean [] := by
  intro before h hp
  simp at hp

theorem Clean.of_prefix {hs before : List Header} (hc : v.Clean hs) (hp : before <+: hs) :
    v.Clean before := by
  intro earlier h hb
  exact hc earlier h (hb.trans hp)

theorem clean_concat : v.Clean (fed ++ [h]) ↔ v.Clean fed ∧ v fed h = .ok none := by
  constructor
  · intro hc
    exact ⟨hc.of_prefix (List.prefix_append fed [h]), hc fed h (List.prefix_refl _)⟩
  · rintro ⟨hc, hv⟩ before x hp
    rcases List.prefix_concat_iff.mp hp with heq | hp
    · obtain ⟨rfl, rfl⟩ := List.append_singleton_inj.mp heq
      exact hv
    · exact hc before x hp

/-- A header that is accepted moves on to the headers before the rest. -/
theorem firstOffence_cons_of_accepted (hv : v fed h = .ok none) (rest : List Header)
    (abort : Abort) :
    v.FirstOffence base fed (h :: rest) abort ↔ v.FirstOffence base (fed ++ [h]) rest abort := by
  constructor
  · rintro ⟨before, x, after, hsplit, hc, hx, hheight⟩
    cases before with
    | nil =>
      obtain ⟨rfl, rfl⟩ := List.cons.inj hsplit
      rw [List.append_nil, hv] at hx
      cases hx
    | cons y before =>
      obtain ⟨rfl, rfl⟩ := List.cons.inj hsplit
      rw [List.append_cons] at hc hx hheight
      exact ⟨before, x, after, rfl, hc, hx, hheight⟩
  · rintro ⟨before, x, after, rfl, hc, hx, hheight⟩
    rw [← List.append_cons] at hc hx hheight
    exact ⟨h :: before, x, after, rfl, hc, hx, hheight⟩

/-- No later header can be the first offending one. -/
theorem before_eq_nil {before after rest : List Header} {x : Header} (hv : v fed h ≠ .ok none)
    (hsplit : h :: rest = before ++ x :: after) (hc : v.Clean (fed ++ before)) :
    before = [] ∧ x = h := by
  cases before with
  | nil => exact ⟨rfl, (List.cons.inj hsplit).1.symm⟩
  | cons y before =>
    obtain ⟨rfl, -⟩ := List.cons.inj hsplit
    exact absurd (hc fed h ⟨before, (List.append_cons fed h before).symm⟩) hv

/-- After a clean run the walk through a batch finds its first offending header. -/
theorem judge_eq_some_iff (hc : v.Clean fed) (batch : List Header) (abort : Abort) :
    v.judge base fed batch = .ok (some abort) ↔ v.FirstOffence base fed batch abort := by
  induction batch generalizing fed with
  | nil =>
    constructor
    · intro hj
      cases hj
    · rintro ⟨before, x, after, hsplit, -⟩
      simp at hsplit
  | cons h rest ih =>
    unfold judge
    cases hv : v fed h with
    | error e =>
      constructor
      · intro hj
        cases hj
      · rintro ⟨before, x, after, hsplit, hb, hx, -⟩
        obtain ⟨rfl, rfl⟩ := before_eq_nil (by simp [hv]) hsplit hb
        rw [List.append_nil, hv] at hx
        cases hx
    | ok verdict =>
      cases verdict with
      | none =>
        rw [firstOffence_cons_of_accepted hv]
        exact ih (clean_concat.mpr ⟨hc, hv⟩)
      | some cause =>
        constructor
        · intro hj
          cases hj
          exact ⟨[], h, rest, rfl, by simpa using hc, by simpa using hv, by simp⟩
        · rintro ⟨before, x, after, hsplit, hb, hx, hheight⟩
          obtain ⟨rfl, rfl⟩ := before_eq_nil (by simp [hv]) hsplit hb
          rw [List.append_nil] at hx hheight
          rw [hv] at hx
          cases abort
          simp_all

theorem clean_of_judge (hc : v.Clean fed) {batch : List Header}
    (hj : v.judge base fed batch = .ok none) : v.Clean (fed ++ batch) := by
  induction batch generalizing fed with
  | nil => rwa [List.append_nil]
  | cons h rest ih =>
    unfold judge at hj
    cases hv : v fed h with
    | error e => simp [hv] at hj
    | ok verdict =>
      cases verdict with
      | none =>
        simp only [hv] at hj
        rw [List.append_cons]
        exact ih (clean_concat.mpr ⟨hc, hv⟩) hj
      | some cause => simp [hv] at hj

end Verdict

variable {r : Rules} {s : ChainStart} {hs measured released : List Header}

theorem Presync.Tracks.run_judge {p : Presync} (ht : p.Tracks r s hs) (batch : List Header) :
    (p.run r batch).2 = Verdict.judge (r.measuringVerdict s) s.height hs batch := by
  induction batch generalizing p hs with
  | nil => rfl
  | cons h rest ih =>
    unfold Presync.run Verdict.judge
    rw [← ht.step_verdict h, ← ht.height_eq]
    cases hp : p.step r h with
    | error e => rfl
    | ok outcome =>
      obtain ⟨next, cause⟩ := outcome
      cases cause with
      | some cause => rfl
      | none => exact ih (ht.step hp)

theorem Redownload.Tracks.run_judge {d : Redownload} (ht : d.Tracks r s measured hs released)
    (batch : List Header) :
    (d.run r batch).ending =
      Verdict.judge (r.verifyingVerdict s measured) s.height hs batch := by
  induction batch generalizing d hs released with
  | nil => rfl
  | cons h rest ih =>
    unfold Redownload.run Verdict.judge
    rw [← ht.step_verdict h, ← ht.height_eq]
    cases hd : d.step r h with
    | error e => rfl
    | ok outcome =>
      obtain ⟨next, cause⟩ := outcome
      cases cause with
      | some cause => rfl
      | none => exact ih (ht.step hd)

namespace Session
variable {t : Session} {batch : List Header} {full : Bool} {abort : Abort}

def ending (t : Session) (batch : List Header) : Except Retarget.Error (Option Abort) :=
  match t.stage with
  | .presync _ pass => (pass.run t.rules batch).2
  | .redownload _ pass => (pass.run t.rules batch).ending
  | .final _ => .ok none

/-- Apart from a chain that ends too early, only the walk through the batch aborts a session. -/
theorem abort?_process (hopen : t.isFinal = false) (hne : abort.cause ≠ .incompleteMessage) :
    (t.process batch full).1.abort? = some abort ↔ t.ending batch = .ok (some abort) := by
  have hincomplete (height : Nat) : some ⟨.incompleteMessage, height⟩ ≠ some abort := by
    rintro heq
    cases heq
    exact hne rfl
  unfold process ending
  cases hs : t.stage with
  | presync start pass =>
    by_cases hb : batch = []
    · simp [hb, abort?, hs, Presync.run]
    · have hfull : batch.isEmpty = false := by simpa using hb
      simp only [hfull, Bool.false_eq_true, if_false, processPresync]
      split <;> rename_i hr <;> rw [hr]
      · simp [abort?]
      · simp [abort?, finishPresync]
      · split_ifs <;> simp [abort?, finishPresync, hincomplete]
  | redownload start pass =>
    by_cases hb : batch = []
    · simp [hb, abort?, hs, Redownload.run]
    · have hfull : batch.isEmpty = false := by simpa using hb
      simp only [hfull, Bool.false_eq_true, if_false, processRedownload]
      split <;> rename_i hr <;> rw [hr]
      · simp [abort?]
      · simp [abort?, finishRedownload]
      · split_ifs <;> simp [abort?, finishRedownload, hincomplete]
  | final report => simp [isFinal, hs] at hopen

/-- After a clean run the batch is aborted over its first offending header. -/
theorem aborts_iff_firstOffence {v : Verdict} {base : Nat} {fed : List Header}
    (hopen : t.isFinal = false) (hc : v.Clean fed)
    (hv : ∀ before h, v before h ≠ .ok (some .incompleteMessage))
    (hjudge : t.ending batch = v.judge base fed batch) (abort : Abort) :
    (t.process batch full).1.abort? = some abort ∧ abort.cause ≠ .incompleteMessage ↔
      v.FirstOffence base fed batch abort := by
  rw [← Verdict.judge_eq_some_iff hc, ← hjudge]
  constructor
  · rintro ⟨habort, hne⟩
    exact (abort?_process hopen hne).mp habort
  · intro hending
    have hne : abort.cause ≠ .incompleteMessage := by
      rw [hjudge, Verdict.judge_eq_some_iff hc] at hending
      obtain ⟨before, h, after, -, -, hx, -⟩ := hending
      intro hcause
      exact hv _ h (hcause ▸ hx)
    exact ⟨(abort?_process hopen hne).mpr hending, hne⟩

end Session

namespace Run
variable {run : Run} {m : Message} {verified : List Header}

/-- The headers of the messages that are fed while the session is in a phase. -/
def fedIn (phase : Session → Bool) (run : Run) : List Message → List Header
  | [] => []
  | m :: ms => (if phase run.session then m.headers else []) ++ fedIn phase (run.call m) ms

theorem fedIn_concat (phase : Session → Bool) (run : Run) (ms : List Message) (m : Message) :
    run.fedIn phase (ms ++ [m]) =
      run.fedIn phase ms ++ if phase (run.feed ms).session then m.headers else [] := by
  induction ms generalizing run with
  | nil => exact (List.append_nil _).trans (List.nil_append _).symm
  | cons x ms ih =>
    rw [List.cons_append, fedIn, ih, fedIn, List.append_assoc]
    rfl

/-- Nothing that was fed in a phase which still goes on has been refused. -/
structure Unrefused (r : Rules) (s : ChainStart) (measured verified : List Header)
    (run : Run) : Prop where
  presync : run.session.isPresync = true → run.measured = measured ∧ verified = [] ∧
    Verdict.Clean (r.measuringVerdict s) measured
  redownload : run.session.isRedownload = true → run.measured = measured ∧
    run.verified = verified ∧ Verdict.Clean (r.verifyingVerdict s measured) verified

theorem unrefused_of_isFinal (hfinal : run.session.isFinal = true) :
    run.Unrefused r s measured verified := by
  obtain ⟨report, hs⟩ := Session.stage_of_isFinal hfinal
  refine ⟨?_, ?_⟩
  · intro hpre
    simp [Session.isPresync, hs] at hpre
  · intro hre
    simp [Session.isRedownload, hs] at hre

theorem Unrefused.record (ht : run.Tracks r s) (hu : run.Unrefused r s measured verified)
    {t : Session} {reply : Reply} (hstep : run.session.Step m.headers m.full t reply) :
    (run.record m t reply).Unrefused r s
      (measured ++ if run.session.isPresync then m.headers else [])
      (verified ++ if run.session.isRedownload then m.headers else []) := by
  cases hstep with
  | ignored hi =>
    rcases hi with hnil | hfinal
    · obtain ⟨hm, hv⟩ := run.record_ignored (.inl hnil)
      simp only [hnil, ite_self, List.append_nil]
      exact ⟨fun hpre => hm ▸ hu.presync hpre, fun hre => hm ▸ hv ▸ hu.redownload hre⟩
    · exact unrefused_of_isFinal hfinal
  | presyncAborted => exact unrefused_of_isFinal rfl
  | presyncEnded => exact unrefused_of_isFinal rfl
  | redownloadAborted => exact unrefused_of_isFinal rfl
  | completed => exact unrefused_of_isFinal rfl
  | redownloadEnded => exact unrefused_of_isFinal rfl
  | switched hb hs hr hw =>
    have hpre : run.session.isPresync = true := by rw [Session.isPresync, hs]
    have hre : run.session.isRedownload = false := by rw [Session.isRedownload, hs]
    obtain ⟨hm, hv, -⟩ := hu.presync hpre
    obtain ⟨-, -, hmeasured, hver, -⟩ := ht.presync_run hs hr
    refine ⟨fun h => absurd h Bool.false_ne_true, fun _ => ?_⟩
    rw [hmeasured, hver, hm, hv, hpre, hre]
    exact ⟨rfl, rfl, Verdict.clean_nil _⟩
  | measuring hb hs hr hw hf =>
    have hpre : run.session.isPresync = true := by rw [Session.isPresync, hs]
    have hre : run.session.isRedownload = false := by rw [Session.isRedownload, hs]
    obtain ⟨hm, hv, hc⟩ := hu.presync hpre
    obtain ⟨-, hpass, -⟩ := ht.holds_of_stage hs
    obtain ⟨-, -, hmeasured, -⟩ := ht.presync_run hs hr
    have hjudge := hpass.run_judge m.headers
    rw [← ht.rules_eq, hr, ht.rules_eq, hm] at hjudge
    refine ⟨fun _ => ?_, fun h => absurd h Bool.false_ne_true⟩
    rw [hmeasured, hm, hv, hpre, hre]
    exact ⟨rfl, rfl, Verdict.clean_of_judge hc hjudge.symm⟩
  | verifying hb hs hr hw hf =>
    have hpre : run.session.isPresync = false := by rw [Session.isPresync, hs]
    have hre : run.session.isRedownload = true := by rw [Session.isRedownload, hs]
    obtain ⟨hm, hv, hc⟩ := hu.redownload hre
    obtain ⟨-, -, -, hpass, -⟩ := ht.holds_of_stage hs
    obtain ⟨hmeasured, hver, -⟩ := ht.redownload_run hs hr
    have hjudge := hpass.run_judge m.headers
    rw [← ht.rules_eq, hr, ht.rules_eq, hm, hv] at hjudge
    refine ⟨fun h => absurd h Bool.false_ne_true, fun _ => ?_⟩
    rw [hmeasured, hver, hm, hv, hpre, hre, if_neg Bool.false_ne_true, List.append_nil]
    exact ⟨rfl, rfl, Verdict.clean_of_judge hc hjudge.symm⟩

theorem Unrefused.feed (ht : run.Tracks r s) (hu : run.Unrefused r s [] []) (ms : List Message)
    (hf : (run.feed ms).fault = none) :
    (run.feed ms).Unrefused r s (run.fedIn Session.isPresync ms)
      (run.fedIn Session.isRedownload ms) := by
  induction ms using List.reverseRecOn with
  | nil => exact hu
  | append_singleton ms m ih =>
    have hlast : run.feed (ms ++ [m]) = (run.feed ms).call m := feed_append run ms [m]
    rw [hlast] at hf ⊢
    obtain ⟨e, he⟩ | ⟨t, reply, hnone, hstep, he⟩ := (run.feed ms).call_cases m
    · rw [he] at hf
      cases hf
    · rw [he, fedIn_concat, fedIn_concat]
      exact (ih hnone).record (ht.feed ms) hstep

/-- In either phase a call is aborted over a header exactly if its batch holds the first offending
header of everything fed in that phase, and the abort names that header's cause and height. Until
then the session asks for headers after the last one fed in the phase. -/
theorem first_offence_aborts (s : ChainStart) (minWork : UInt256) (params : Params)
    (config : Config) (now : Int) (words : List UInt64) (key : Digest) (ms : List Message)
    (m : Message) :
    let r := Rules.start s minWork params config now words key
    let init := start (Session.start s minWork params config now words key)
    let run := init.feed ms
    let next := run.session.process m.headers m.full
    let measured := init.fedIn Session.isPresync ms
    let verified := init.fedIn Session.isRedownload ms
    (run.fault = none → run.session.isPresync = true →
      (∀ abort, next.1.abort? = some abort ∧ abort.cause ≠ .incompleteMessage ↔
        Verdict.FirstOffence (r.measuringVerdict s) s.height measured m.headers abort) ∧
      run.session.locator = tipId s.id measured :: s.locator) ∧
    (run.fault = none → run.session.isRedownload = true →
      (∀ abort, next.1.abort? = some abort ∧ abort.cause ≠ .incompleteMessage ↔
        Verdict.FirstOffence (r.verifyingVerdict s measured) s.height verified m.headers abort) ∧
      run.session.locator = tipId s.id verified :: s.locator) ∧
    (params.window ≠ 0 → run.fault = none ∧ ∃ reply, next.2 = .ok reply) := by
  intro r init run next measured verified
  have hinit : init.Tracks r s := tracks_start s minWork params config now words key
  have ht : run.Tracks r s := hinit.feed ms
  have hnew : init.Unrefused r s [] [] := ⟨fun _ => ⟨rfl, rfl, Verdict.clean_nil _⟩, nofun⟩
  refine ⟨?_, ?_, ?_⟩
  · intro hf hpre
    obtain ⟨origin, pass, hs⟩ := Session.stage_of_isPresync hpre
    obtain ⟨rfl, hpass, -⟩ := ht.holds_of_stage hs
    obtain ⟨hm, -, hc⟩ := (hnew.feed hinit ms hf).presync hpre
    replace hm : run.measured = measured := hm
    rw [hm] at hpass
    refine ⟨?_, ?_⟩
    · apply Session.aborts_iff_firstOffence (by rw [Session.isFinal, hs]) hc
      · exact r.measuringVerdict_ne origin
      · rw [Session.ending, hs, ht.rules_eq]
        exact hpass.run_judge m.headers
    · rw [Session.locator, hs]
      dsimp only
      rw [hpass.cursor_eq, Cursor.id_follow]
      rfl
  · intro hf hre
    obtain ⟨origin, pass, hs⟩ := Session.stage_of_isRedownload hre
    obtain ⟨rfl, -, -, hpass, -⟩ := ht.holds_of_stage hs
    obtain ⟨hm, hv, hc⟩ := (hnew.feed hinit ms hf).redownload hre
    replace hm : run.measured = measured := hm
    replace hv : run.verified = verified := hv
    rw [hm, hv] at hpass
    refine ⟨?_, ?_⟩
    · apply Session.aborts_iff_firstOffence (by rw [Session.isFinal, hs]) hc
      · exact r.verifyingVerdict_ne origin measured
      · rw [Session.ending, hs, ht.rules_eq]
        exact hpass.run_judge m.headers
    · rw [Session.locator, hs]
      dsimp only
      rw [hpass.id_eq]
  · intro hp
    have hw : run.session.rules.params.window ≠ 0 := by rwa [ht.rules_eq]
    obtain ⟨t, reply, hreply⟩ := Session.exists_process hw m.headers m.full
    exact ⟨fault_feed hinit hp rfl ms, reply, by rw [show next = _ from hreply]⟩

end Run
end HeaderSync
