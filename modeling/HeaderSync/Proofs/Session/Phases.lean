import HeaderSync.Proofs.Session.Answer
import HeaderSync.Proofs.Session.Memory

/-!
# The phases of a session

A session is in its first pass, in its second pass or finished. The phase, the reply of a call and
the reason to abort are set at different places on the way through a call. `Course` puts the answered
calls into four kinds by what the three of them are together, and what is said about a whole run of
calls rests on it. A call without a reply leaves the phase as it is.
-/

namespace HeaderSync

inductive Phase
  | presync
  | redownload
  | final
deriving DecidableEq

/-- The second pass comes after the first only, and nothing comes after the end. -/
inductive Phase.LeadsTo : Phase → Phase → Prop
  | stay (p : Phase) : LeadsTo p p
  | switch : LeadsTo .presync .redownload
  | finish (p : Phase) : LeadsTo p .final

/-- A batch is accepted as a whole if and only if nothing ends its walk early. -/
theorem Presync.accepted_eq_iff {r : Rules} {p : Presync} {batch : List Header} :
    p.accepted r batch = batch ↔ (p.run r batch).2 = .ok none := by
  induction batch generalizing p with
  | nil => exact iff_of_true rfl rfl
  | cons h rest ih =>
    unfold accepted run
    cases p.step r h with
    | error e =>
      apply iff_of_false (List.cons_ne_nil h rest).symm
      intro hrun
      cases hrun
    | ok outcome =>
      obtain ⟨next, cause⟩ := outcome
      cases cause with
      | some cause =>
        apply iff_of_false (List.cons_ne_nil h rest).symm
        intro hrun
        cases hrun
      | none =>
        constructor
        · intro hall
          exact ih.mp (List.cons.inj hall).2
        · intro hrun
          exact congrArg (h :: ·) (ih.mpr hrun)

namespace Session

def phase (s : Session) : Phase :=
  match s.stage with
  | .presync _ _ => .presync
  | .redownload _ _ => .redownload
  | .final _ => .final

variable {s t : Session} {batch : List Header} {full : Bool} {reply : Reply}

theorem phase_eq_presync : s.phase = .presync ↔ s.isPresync = true := by
  unfold phase isPresync
  cases s.stage <;> simp

theorem phase_eq_final : s.phase = .final ↔ s.isFinal = true := by
  unfold phase isFinal
  cases s.stage <;> simp

theorem phase_of_presync {start : ChainStart} {pass : Presync}
    (hs : s.stage = .presync start pass) : s.phase = .presync := by
  rw [phase, hs]

theorem phase_of_redownload {start : ChainStart} {pass : Redownload}
    (hs : s.stage = .redownload start pass) : s.phase = .redownload := by
  rw [phase, hs]

theorem ne_final_of_presync {start : ChainStart} {pass : Presync}
    (hs : s.stage = .presync start pass) : s.phase ≠ .final := by
  rw [phase_of_presync hs]
  decide

theorem ne_final_of_redownload {start : ChainStart} {pass : Redownload}
    (hs : s.stage = .redownload start pass) : s.phase ≠ .final := by
  rw [phase_of_redownload hs]
  decide

/-- Only a finished session has a reason to abort. -/
theorem abort?_of_ne_final (hs : s.phase ≠ .final) : s.abort? = none := by
  unfold phase at hs
  unfold abort?
  cases h : s.stage with
  | presync start pass => rfl
  | redownload start pass => rfl
  | final report => simp [h] at hs

theorem process_of_ignored (hi : batch = [] ∨ s.phase = .final) :
    s.process batch full = (s, .ok .failure) := by
  unfold process
  rcases hi with rfl | hfinal
  · rfl
  · obtain ⟨report, hs⟩ := stage_of_isFinal (phase_eq_final.mp hfinal)
    rw [hs]
    exact ite_self _

theorem process_of_presync {start : ChainStart} {pass : Presync}
    (hs : s.stage = .presync start pass) (hb : batch ≠ []) :
    s.process batch full = s.processPresync start pass batch full := by
  rw [process, if_neg (mt List.isEmpty_iff.mp hb), hs]

theorem process_of_redownload {start : ChainStart} {pass : Redownload}
    (hs : s.stage = .redownload start pass) (hb : batch ≠ []) :
    s.process batch full = s.processRedownload start pass batch full := by
  rw [process, if_neg (mt List.isEmpty_iff.mp hb), hs]

/-- The kinds of answered calls, by the phases before and after, the reply and the abort. -/
inductive Course (s : Session) (batch : List Header) (t : Session) (reply : Reply) : Prop
  | ignored (hi : batch = [] ∨ s.phase = .final) (ht : t = s) (hreply : reply = .failure)
  | goesOn (hb : batch ≠ []) (hs : s.phase ≠ .final) (ht : t.phase ≠ .final)
      (hp : s.phase.LeadsTo t.phase) (hsuccess : reply.success = true)
      (hmore : reply.requestMore = true)
  | aborts (hb : batch ≠ []) (hs : s.phase ≠ .final) (ht : t.phase = .final)
      (ha : t.abort? ≠ none) (hreply : reply = .failure)
  | ends (hb : batch ≠ []) (hs : s.phase ≠ .final) (ht : t.phase = .final)
      (hnone : t.abort? = none → s.phase = .redownload)
      (hsome : ∀ abort, t.abort? = some abort → abort.cause = .incompleteMessage)
      (hsuccess : reply.success = true) (hstop : reply.requestMore = false)

theorem Step.course (h : s.Step batch full t reply) : s.Course batch t reply := by
  cases h with
  | ignored hi => exact .ignored (hi.imp_right phase_eq_final.mpr) rfl rfl
  | presyncAborted hs hr =>
    have hb : batch ≠ [] := by
      rintro rfl
      cases hr
    exact .aborts hb (ne_final_of_presync hs) rfl nofun rfl
  | switched hb hs hr hw =>
    exact .goesOn hb (ne_final_of_presync hs) nofun (phase_of_presync hs ▸ .switch) rfl rfl
  | measuring hb hs hr hw hf =>
    exact .goesOn hb (ne_final_of_presync hs) nofun (phase_of_presync hs ▸ .stay _) rfl rfl
  | presyncEnded hb hs hr hw hf =>
    refine .ends hb (ne_final_of_presync hs) rfl nofun ?_ rfl rfl
    intro abort habort
    cases habort
    rfl
  | redownloadAborted hs hr =>
    have hb : batch ≠ [] := by
      rintro rfl
      cases hr
    exact .aborts hb (ne_final_of_redownload hs) rfl nofun rfl
  | completed hb hs hr hw =>
    exact .ends hb (ne_final_of_redownload hs) rfl (fun _ => phase_of_redownload hs) nofun rfl rfl
  | verifying hb hs hr hw hf =>
    exact .goesOn hb (ne_final_of_redownload hs) nofun (phase_of_redownload hs ▸ .stay _) rfl rfl
  | redownloadEnded hb hs hr hw hf =>
    refine .ends hb (ne_final_of_redownload hs) rfl nofun ?_ rfl rfl
    intro abort habort
    cases habort
    rfl

/-- A call without a reply has met a header that its pass cannot judge, and stays in the pass. -/
theorem phase_of_fault {e : Retarget.Error} (h : s.process batch full = (t, .error e)) :
    t.phase = s.phase ∧ s.phase ≠ .final := by
  have hb : batch ≠ [] := by
    rintro rfl
    cases h
  cases hs : s.stage with
  | presync start pass =>
    rw [process_of_presync hs hb, processPresync] at h
    split at h
    · obtain ⟨rfl, -⟩ := Prod.mk.inj h
      exact ⟨(phase_of_presync hs).symm, ne_final_of_presync hs⟩
    · cases h
    · split_ifs at h <;> cases h
  | redownload start pass =>
    rw [process_of_redownload hs hb, processRedownload] at h
    split at h
    · obtain ⟨rfl, -⟩ := Prod.mk.inj h
      exact ⟨(phase_of_redownload hs).symm, ne_final_of_redownload hs⟩
    · cases h
    · split_ifs at h <;> cases h
  | final report =>
    have hfinal : s.phase = .final := by rw [phase, hs]
    rw [process_of_ignored (.inr hfinal)] at h
    cases h

theorem leadsTo_process (s : Session) (batch : List Header) (full : Bool) :
    s.phase.LeadsTo (s.process batch full).1.phase := by
  cases h : s.process batch full with
  | mk t outcome =>
    cases outcome with
    | error e => exact (phase_of_fault h).1 ▸ .stay _
    | ok reply =>
      cases (step_of_process h).course with
      | ignored hi ht hreply => exact ht ▸ .stay _
      | goesOn hb hs ht hp hsuccess hmore => exact hp
      | aborts hb hs ht ha hreply => exact ht ▸ .finish _
      | ends hb hs ht hnone hsome hsuccess hstop => exact ht ▸ .finish _

/-- The first pass is left for the second by a batch that is accepted as a whole and brings the
work together, and by no other one. -/
theorem switches_iff (hs : s.phase = .presync) :
    (s.process batch full).1.phase = .redownload ↔
      batch ≠ [] ∧ s.measuredBy batch = batch ∧
        s.rules.minWork ≤ (s.process batch full).1.presyncWork := by
  obtain ⟨start, pass, hstage⟩ := stage_of_isPresync (phase_eq_presync.mp hs)
  have hmeasured : s.measuredBy batch = pass.accepted s.rules batch := by rw [measuredBy, hstage]
  rw [hmeasured, Presync.accepted_eq_iff]
  by_cases hb : batch = []
  · rw [process_of_ignored (.inl hb), hs]
    apply iff_of_false (by decide)
    intro h
    exact h.1 hb
  · rw [and_iff_right hb, process_of_presync hstage hb, processPresync]
    -- The walk through the batch stops at a fault or an abort, or goes to its end.
    split <;> rename_i hr <;> rw [hr]
    · apply iff_of_false
      · intro h
        cases h
      · intro h
        cases h.1
    · apply iff_of_false
      · intro h
        cases h
      · intro h
        cases h.1
    · split_ifs with hw hf
      · exact iff_of_true rfl ⟨rfl, hw⟩
      · apply iff_of_false
        · intro h
          cases h
        · intro h
          exact hw h.2
      · apply iff_of_false
        · intro h
          cases h
        · intro h
          exact hw h.2

theorem reply_of_switch (hs : s.phase = .presync)
    (ht : (s.process batch full).1.phase = .redownload) :
    (s.process batch full).2 = .ok ⟨true, true, []⟩ := by
  cases h : s.process batch full with
  | mk t outcome =>
    rw [h] at ht
    cases outcome with
    | error e =>
      rw [(phase_of_fault h).1, hs] at ht
      cases ht
    | ok reply =>
      have hstep := step_of_process h
      obtain ⟨start, pass, hstage⟩ := stage_of_isPresync (phase_eq_presync.mp hs)
      cases hstep with
      | switched hb hs' hr hw => rfl
      | ignored hi => cases hs.symm.trans ht
      | presyncAborted hs' hr => cases ht
      | measuring hb hs' hr hw hf => cases ht
      | presyncEnded hb hs' hr hw hf => cases ht
      | redownloadAborted hs' hr => cases ht
      | completed hb hs' hr hw => cases ht
      | verifying hb hs' hr hw hf => cases hstage.symm.trans hs'
      | redownloadEnded hb hs' hr hw hf => cases ht

namespace Course

theorem open_iff (hc : s.Course batch t reply) (hb : batch ≠ []) (hs : s.phase ≠ .final) :
    t.phase ≠ .final ↔ reply.success = true ∧ reply.requestMore = true := by
  cases hc with
  | ignored hi ht hreply => exact absurd hi (not_or.mpr ⟨hb, hs⟩)
  | goesOn _ _ ht hp hsuccess hmore => exact iff_of_true ht ⟨hsuccess, hmore⟩
  | aborts _ _ ht ha hreply => exact iff_of_false (not_not.mpr ht) (by rw [hreply]; nofun)
  | ends _ _ ht hnone hsome hsuccess hstop =>
    exact iff_of_false (not_not.mpr ht) (by rw [hstop]; simp)

theorem headers_eq_nil (hc : s.Course batch t reply) (hfailure : reply.success = false) :
    reply.headers = [] := by
  cases hc with
  | ignored hi ht hreply => rw [hreply, Reply.failure]
  | goesOn hb hs ht hp hsuccess hmore => cases hsuccess.symm.trans hfailure
  | aborts hb hs ht ha hreply => rw [hreply, Reply.failure]
  | ends hb hs ht hnone hsome hsuccess hstop => cases hsuccess.symm.trans hfailure

theorem cause_eq (hc : s.Course batch t reply) (hsuccess : reply.success = true) {abort : Abort}
    (ha : t.abort? = some abort) : abort.cause = .incompleteMessage := by
  cases hc with
  | ignored hi ht hreply =>
    rw [hreply] at hsuccess
    cases hsuccess
  | goesOn hb hs ht hp _ hmore => cases (abort?_of_ne_final ht).symm.trans ha
  | aborts hb hs ht _ hreply =>
    rw [hreply] at hsuccess
    cases hsuccess
  | ends hb hs ht hnone hsome _ hstop => exact hsome abort ha

/-- A session that ends without an abort was in its second pass. -/
theorem of_abort?_eq_none (hc : s.Course batch t reply) (hs : s.phase ≠ .final)
    (ht : t.phase = .final) (ha : t.abort? = none) :
    s.phase = .redownload ∧ reply.success = true := by
  cases hc with
  | ignored hi hsame hreply =>
    rw [hsame] at ht
    exact absurd ht hs
  | goesOn hb _ hopen hp hsuccess hmore => exact absurd ht hopen
  | aborts hb _ _ habort hreply => exact absurd ha habort
  | ends hb _ _ hnone hsome hsuccess hstop => exact ⟨hnone ha, hsuccess⟩

end Course

theorem after_append (t : Session) (xs ys : List Message) :
    t.after (xs ++ ys) = (t.after xs).after ys := List.foldl_append

theorem rules_after (t : Session) (ms : List Message) : (t.after ms).rules = t.rules := by
  induction ms generalizing t with
  | nil => rfl
  | cons m ms ih =>
    rw [← t.rules_process m.headers m.full]
    exact ih _

/-- A finished session was finished by one of its calls, which was answered, and has stayed as that
call left it. -/
theorem exists_last_call (init : Session) (hinit : init.phase ≠ .final) (ms : List Message)
    (hfinal : (init.after ms).phase = .final) :
    ∃ before last later reply, ms = before ++ last :: later ∧
      (init.after before).phase ≠ .final ∧
      (init.after before).process last.headers last.full = (init.after ms, .ok reply) := by
  induction ms using List.reverseRecOn with
  | nil => exact absurd hfinal hinit
  | append_singleton ms m ih =>
    have hlast : init.after (ms ++ [m]) = ((init.after ms).process m.headers m.full).1 :=
      after_append init ms [m]
    by_cases hbefore : (init.after ms).phase = .final
    · obtain ⟨before, last, later, reply, hsplit, hopen, hcall⟩ := ih hbefore
      rw [process_of_ignored (.inr hbefore)] at hlast
      refine ⟨before, last, later ++ [m], reply, ?_, hopen, ?_⟩
      · rw [hsplit, List.append_assoc, List.cons_append]
      · rw [hlast]
        exact hcall
    · cases hcall : (init.after ms).process m.headers m.full with
      | mk t outcome =>
        rw [hcall] at hlast
        cases outcome with
        | error e =>
          rw [hlast, (phase_of_fault hcall).1] at hfinal
          exact absurd hfinal hbefore
        | ok reply =>
          refine ⟨ms, m, [], reply, rfl, hbefore, ?_⟩
          rw [hlast]
          exact hcall

/-- In any run of calls the phase goes from the first pass to the second or to the end, and from the
second to the end. The first pass is left for the second if and only if the whole batch is accepted
and the work is there; that call asks for more and releases nothing. Of the batches that are not
ignored, those whose reply is a success that asks for more leave the session open, and no other
ones. The reason to abort is settled by the call that finishes the session: there is none only if
that was a successful call of the second pass, and with a success it is a message cut short. -/
theorem phases_consistent (s : ChainStart) (minWork : UInt256) (params : Params) (config : Config)
    (now : Int) (words : List UInt64) (key : Digest) (ms : List Message) (m : Message) :
    let init := Session.start s minWork params config now words key
    let t := init.after ms
    let next := t.process m.headers m.full
    init.phase = .presync ∧ t.phase.LeadsTo next.1.phase ∧
      (t.phase = .presync →
        (next.1.phase = .redownload ↔ m.headers ≠ [] ∧ t.measuredBy m.headers = m.headers ∧
          minWork ≤ next.1.presyncWork) ∧
        (next.1.phase = .redownload → next.2 = .ok ⟨true, true, []⟩)) ∧
      (m.headers = [] ∨ t.phase = .final → next = (t, .ok .failure)) ∧
      (t.phase ≠ .final → t.abort? = none) ∧
      (∀ reply, next.2 = .ok reply →
        (m.headers ≠ [] → t.phase ≠ .final →
          (next.1.phase ≠ .final ↔ reply.success = true ∧ reply.requestMore = true)) ∧
        (reply.success = false → reply.headers = []) ∧
        (reply.success = true → ∀ abort, next.1.abort? = some abort →
          abort.cause = .incompleteMessage)) ∧
      (t.phase = .final → ∃ before last later reply, ms = before ++ last :: later ∧
        (init.after before).phase ≠ .final ∧
        (init.after before).process last.headers last.full = (t, .ok reply) ∧
        (t.abort? = none → (init.after before).phase = .redownload ∧ reply.success = true)) ∧
      (params.window ≠ 0 → ∃ reply, next.2 = .ok reply) := by
  intro init t next
  have hrules : t.rules = init.rules := rules_after init ms
  refine ⟨rfl, t.leadsTo_process m.headers m.full, ?_, process_of_ignored, abort?_of_ne_final,
    ?_, ?_, ?_⟩
  · intro hpre
    have hminWork : t.rules.minWork = minWork := congrArg Rules.minWork hrules
    exact ⟨hminWork ▸ switches_iff hpre, reply_of_switch hpre⟩
  · intro reply hreply
    have hcall : t.process m.headers m.full = (next.1, .ok reply) := Prod.ext rfl hreply
    have hcourse := (step_of_process hcall).course
    exact ⟨hcourse.open_iff, hcourse.headers_eq_nil, fun hsuccess _ => hcourse.cause_eq hsuccess⟩
  · intro hfinal
    obtain ⟨before, last, later, reply, hsplit, hopen, hcall⟩ :=
      exists_last_call init nofun ms hfinal
    exact ⟨before, last, later, reply, hsplit, hopen, hcall,
      (step_of_process hcall).course.of_abort?_eq_none hopen hfinal⟩
  · intro hwindow
    have hparams : t.rules.params = params := congrArg Rules.params hrules
    obtain ⟨_, reply, hreply⟩ := exists_process (hparams.symm ▸ hwindow) m.headers m.full
    exact ⟨reply, congrArg Prod.snd hreply⟩

end Session
end HeaderSync
