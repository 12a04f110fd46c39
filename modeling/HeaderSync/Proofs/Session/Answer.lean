import HeaderSync.Proofs.Session.Run

/-!
# When calls are answered

The only fault of a call is an average over no targets. If the averaging window is not empty, every
batch has a reply, in any state of the session.
-/

namespace HeaderSync
variable {p : Params} {r : Rules}

theorem Window.exists_permits (hp : p.window ≠ 0) (w : Window) (last next : Stamp) (height : Nat) :
    ∃ b, w.permits p last next height = .ok b := by
  have hexpected : ∃ bits, w.expected p = .ok bits := by
    unfold expected Retarget.meanTarget
    rw [if_neg hp]
    split
    · exact ⟨_, rfl⟩
    · exact ⟨_, rfl⟩
  obtain ⟨bits, hbits⟩ := hexpected
  unfold permits
  rw [hbits]
  split
  · exact ⟨_, rfl⟩
  · split
    · exact ⟨_, rfl⟩
    · cases bits with
      | none => exact ⟨_, rfl⟩
      | some bits => exact ⟨_, rfl⟩

theorem Cursor.exists_refusal? (hp : p.window ≠ 0) (c : Cursor) (h : Header) :
    ∃ cause, c.refusal? p h = .ok cause := by
  obtain ⟨b, hb⟩ := c.window.exists_permits hp c.stamp ⟨h.bits, h.seconds⟩ (c.height + 1)
  unfold refusal?
  split
  · exact ⟨_, rfl⟩
  · rw [hb]
    cases b with
    | false => exact ⟨_, rfl⟩
    | true => exact ⟨_, rfl⟩

theorem Presync.exists_step (hp : r.params.window ≠ 0) (pass : Presync) (h : Header) :
    ∃ outcome, pass.step r h = .ok outcome := by
  obtain ⟨cause, hc⟩ := pass.cursor.exists_refusal? hp h
  unfold step
  rw [hc]
  cases cause with
  | some cause => exact ⟨_, rfl⟩
  | none => exact ⟨_, rfl⟩

theorem Presync.exists_run (hp : r.params.window ≠ 0) (pass : Presync) (batch : List Header) :
    ∃ abort, (pass.run r batch).2 = .ok abort := by
  induction batch generalizing pass with
  | nil => exact ⟨none, rfl⟩
  | cons h rest ih =>
    obtain ⟨⟨pass', cause⟩, hs⟩ := pass.exists_step hp h
    unfold run
    rw [hs]
    cases cause with
    | some cause => exact ⟨_, rfl⟩
    | none => exact ih pass'

theorem Redownload.exists_step (hp : r.params.window ≠ 0) (pass : Redownload) (h : Header) :
    ∃ outcome, pass.step r h = .ok outcome := by
  obtain ⟨cause, hc⟩ := pass.cursor.exists_refusal? hp h
  unfold step
  rw [hc]
  cases cause with
  | some cause => exact ⟨_, rfl⟩
  | none => exact ⟨_, rfl⟩

theorem Redownload.exists_run (hp : r.params.window ≠ 0) (pass : Redownload)
    (batch : List Header) : ∃ abort, (pass.run r batch).ending = .ok abort := by
  induction batch generalizing pass with
  | nil => exact ⟨none, rfl⟩
  | cons h rest ih =>
    obtain ⟨⟨pass', cause⟩, hs⟩ := pass.exists_step hp h
    unfold run
    rw [hs]
    cases cause with
    | some cause => exact ⟨_, rfl⟩
    | none => exact ih (pass'.release (pass'.releasable r)).2

theorem Session.exists_process {s : Session} (hp : s.rules.params.window ≠ 0)
    (batch : List Header) (full : Bool) : ∃ t reply, s.process batch full = (t, .ok reply) := by
  unfold process
  split
  · exact ⟨_, _, rfl⟩
  · cases s.stage with
    | presync start pass =>
      obtain ⟨abort, ha⟩ := pass.exists_run hp batch
      simp only [processPresync]
      split <;> rename_i hr <;> rw [hr] at ha
      · cases ha
      · exact ⟨_, _, rfl⟩
      · split_ifs <;> exact ⟨_, _, rfl⟩
    | redownload start pass =>
      obtain ⟨abort, ha⟩ := pass.exists_run hp batch
      simp only [processRedownload]
      split <;> rename_i hr <;> rw [hr] at ha
      · cases ha
      · exact ⟨_, _, rfl⟩
      · split_ifs <;> exact ⟨_, _, rfl⟩
    | final report => exact ⟨_, _, rfl⟩

/-- With a window to average, a run never stops at a fault. -/
theorem Run.fault_feed {run : Run} {s : ChainStart} (ht : run.Tracks r s)
    (hp : r.params.window ≠ 0) (hf : run.fault = none) (ms : List Message) :
    (run.feed ms).fault = none := by
  induction ms generalizing run with
  | nil => exact hf
  | cons m ms ih =>
    have hw : run.session.rules.params.window ≠ 0 := by rwa [ht.rules_eq]
    obtain ⟨t, reply, hm⟩ := Session.exists_process hw m.headers m.full
    have hcall : run.call m = run.record m t reply := by simp [call, hf, hm]
    refine ih (ht.feed [m]) ?_
    rw [hcall]
    exact hf

end HeaderSync
