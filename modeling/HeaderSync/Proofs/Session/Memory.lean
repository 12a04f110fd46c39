import HeaderSync.Proofs.Session.Run

/-!
# How much a session keeps

A peer cannot make a session grow. Bits are pushed only below the bound that was settled at the
start, each buffered header beyond the buffer's size is released before the next one is looked at,
and a finished session has no lists left. The bounds hold after every call, also after one that had
no reply.
-/

namespace HeaderSync
variable {r : Rules} {s : ChainStart}

namespace Presync
variable {p p' : Presync} {h : Header} {cause : Option AbortCause}

theorem size_step (hp : p.step r h = .ok (p', cause))
    (hsize : p.commitments.size ≤ r.maxCommitments) :
    p'.commitments.size ≤ r.maxCommitments := by
  obtain ⟨_, -, rfl, -⟩ | ⟨-, hs⟩ := step_cases hp
  · exact hsize
  unfold store at hs
  split_ifs at hs with hc hm
  · obtain ⟨rfl, -⟩ := Prod.mk.inj hs
    exact hsize
  · obtain ⟨rfl, -⟩ := Prod.mk.inj hs
    exact hsize
  · obtain ⟨rfl, -⟩ := Prod.mk.inj hs
    exact Nat.lt_of_not_le hm

theorem size_run (hsize : p.commitments.size ≤ r.maxCommitments) (batch : List Header) :
    (p.run r batch).1.commitments.size ≤ r.maxCommitments := by
  induction batch generalizing p with
  | nil => exact hsize
  | cons h rest ih =>
    unfold run
    cases hp : p.step r h with
    | error e => exact hsize
    | ok outcome =>
      obtain ⟨next, cause⟩ := outcome
      have hnext := size_step hp hsize
      cases cause with
      | some cause => exact hnext
      | none => exact ih hnext

end Presync

namespace Redownload

/-- The states of the second pass inside a batch, between headers and between releases. -/
inductive Visits (r : Rules) : Redownload → List Header → Redownload → Prop
  | entered {d : Redownload} {batch : List Header} : Visits r d batch d
  | judged {d d' : Redownload} {h : Header} {rest : List Header} {cause : Option AbortCause}
      (hd : d.step r h = .ok (d', cause)) : Visits r d (h :: rest) d'
  | releasing {d d' : Redownload} {h : Header} {rest : List Header} {count : Nat}
      (hd : d.step r h = .ok (d', none)) (hc : count ≤ d'.releasable r) :
      Visits r d (h :: rest) (d'.release count).2
  | later {d d' e : Redownload} {h : Header} {rest : List Header}
      (hd : d.step r h = .ok (d', none))
      (he : Visits r (d'.release (d'.releasable r)).2 rest e) : Visits r d (h :: rest) e

structure Bounded (r : Rules) (d : Redownload) : Prop where
  commitments_le : d.commitments.size ≤ r.maxCommitments
  buffer_le : d.buffer.size ≤ r.bufferSize

variable {d d' e : Redownload} {h : Header} {batch : List Header} {cause : Option AbortCause}

/-- A bit is only ever taken out, and a header held once. -/
theorem size_step (hd : d.step r h = .ok (d', cause)) :
    d'.commitments.size ≤ d.commitments.size ∧ d'.buffer.size ≤ d.buffer.size + 1 := by
  obtain ⟨_, -, rfl, -⟩ | ⟨-, hs⟩ := step_cases hd
  · exact ⟨Nat.le_refl _, Nat.le_succ _⟩
  unfold store at hs
  by_cases hc : (d.weigh h).isReleasing r || !r.commitsAt (d.cursor.height + 1)
  · rw [if_pos hc] at hs
    obtain ⟨rfl, -⟩ := Prod.mk.inj hs
    exact ⟨Nat.le_refl _, Nat.le_refl _⟩
  rw [if_neg hc] at hs
  cases hq : d.commitments.pop? with
  | none =>
    rw [hq] at hs
    obtain ⟨rfl, -⟩ := Prod.mk.inj hs
    exact ⟨Nat.le_refl _, Nat.le_succ _⟩
  | some popped =>
    obtain ⟨bit, left⟩ := popped
    have hleft : d.commitments.size = left.size + 1 := Queue.size_of_pop? hq
    simp only [hq] at hs
    split_ifs at hs with hb
    · obtain ⟨rfl, -⟩ := Prod.mk.inj hs
      exact ⟨Nat.le_of_lt (Nat.lt_of_lt_of_eq (Nat.lt_succ_self _) hleft.symm), Nat.le_refl _⟩
    · obtain ⟨rfl, -⟩ := Prod.mk.inj hs
      exact ⟨Nat.le_refl _, Nat.le_succ _⟩

theorem size_release (d : Redownload) (count : Nat) :
    (d.release count).2.commitments = d.commitments ∧
      (d.release count).2.buffer.size = d.buffer.size - count := by
  obtain ⟨rest, hrest, hrel⟩ := d.release_eq count
  rw [hrel]
  refine ⟨rfl, ?_⟩
  rw [← Queue.length_toList, hrest, List.length_drop, Queue.length_toList]

namespace Bounded

theorem step (hb : d.Bounded r) (hd : d.step r h = .ok (d', cause)) :
    d'.commitments.size ≤ r.maxCommitments ∧ d'.buffer.size ≤ r.bufferSize + 1 := by
  have hsize := size_step hd
  have hcommitments := hb.commitments_le
  have hbuffer := hb.buffer_le
  omega

/-- What does not fit into the buffer is released at once. -/
theorem release (hb : d.Bounded r) (hd : d.step r h = .ok (d', none)) :
    (d'.release (d'.releasable r)).2.Bounded r := by
  obtain ⟨hcommitments, hbuffer⟩ := hb.step hd
  obtain ⟨hsame, hsize⟩ := d'.size_release (d'.releasable r)
  refine ⟨?_, ?_⟩
  · rw [hsame]
    exact hcommitments
  · rw [hsize, releasable]
    split <;> omega

/-- An aborted batch may leave a header too many in the buffer, which the session then drops. -/
theorem run (hb : d.Bounded r) (batch : List Header)
    (hrun : ∀ abort, (d.run r batch).ending ≠ .ok (some abort)) :
    (d.run r batch).pass.Bounded r := by
  induction batch generalizing d with
  | nil => exact hb
  | cons h rest ih =>
    unfold Redownload.run at hrun ⊢
    cases hd : d.step r h with
    | error e => exact hb
    | ok outcome =>
      obtain ⟨next, cause⟩ := outcome
      rw [hd] at hrun
      cases cause with
      | some cause => exact absurd rfl (hrun _)
      | none => exact ih (hb.release hd) hrun

/-- Inside a call the buffer holds at most one header more than between calls. -/
theorem visits (hb : d.Bounded r) (hv : Visits r d batch e) : e.buffer.size ≤ r.bufferSize + 1 := by
  induction hv with
  | entered => exact Nat.le_succ_of_le hb.buffer_le
  | judged hd => exact (hb.step hd).2
  | @releasing _ d' _ _ count hd hc =>
    have hbuffer := (hb.step hd).2
    have hsize := (d'.size_release count).2
    omega
  | later hd he ih => exact ih (hb.release hd)

end Bounded
end Redownload

/-- What the lists of a stage hold, where the session has the rules `r` and began at `s`. -/
def Stage.Bounded (r : Rules) (s : ChainStart) : Stage → Prop
  | .presync start pass => start = s ∧ pass.commitments.size ≤ r.maxCommitments
  | .redownload start pass => start = s ∧ pass.Bounded r
  | .final _ => True

namespace Session
variable {t : Session}

/-- The session after some messages, whether or not each of them had a reply. -/
def after (t : Session) (ms : List Message) : Session :=
  ms.foldl (fun t m => (t.process m.headers m.full).1) t

theorem rules_process (t : Session) (batch : List Header) (full : Bool) :
    (t.process batch full).1.rules = t.rules := by
  unfold process
  split
  · rfl
  · cases t.stage with
    | presync start pass =>
      simp only [processPresync]
      split
      · rfl
      · rfl
      · split_ifs <;> rfl
    | redownload start pass =>
      simp only [processRedownload]
      split
      · rfl
      · rfl
      · split_ifs <;> rfl
    | final report => rfl

theorem bounded_process (ht : t.stage.Bounded r s) (hrules : t.rules = r) (batch : List Header)
    (full : Bool) : (t.process batch full).1.stage.Bounded r s := by
  unfold process
  split_ifs
  · exact ht
  cases hs : t.stage with
  | presync start pass =>
    rw [hs] at ht
    obtain ⟨rfl, hpass⟩ := ht
    have hrun := Presync.size_run hpass batch
    simp only [processPresync, hrules]
    split
    · rename_i hr
      rw [hr] at hrun
      exact ⟨rfl, hrun⟩
    · trivial
    · rename_i hr
      rw [hr] at hrun
      split_ifs
      · exact ⟨rfl, hrun, Nat.zero_le _⟩
      · exact ⟨rfl, hrun⟩
      · trivial
  | redownload start pass =>
    rw [hs] at ht
    obtain ⟨rfl, hpass⟩ := ht
    have hrun := hpass.run batch
    simp only [processRedownload, hrules]
    split
    · rename_i hr
      rw [hr] at hrun
      exact ⟨rfl, hrun (by simp)⟩
    · trivial
    · rename_i hr
      rw [hr] at hrun
      split_ifs
      · trivial
      · exact ⟨rfl, hrun (by simp)⟩
      · trivial
  | final report =>
    rw [hs] at ht
    simpa only [hs] using ht

theorem bounded_after (ht : t.stage.Bounded r s) (hrules : t.rules = r) (ms : List Message) :
    (t.after ms).stage.Bounded r s ∧ (t.after ms).rules = r := by
  induction ms generalizing t with
  | nil => exact ⟨ht, hrules⟩
  | cons m ms ih =>
    exact ih (bounded_process ht hrules m.headers m.full)
      ((t.rules_process m.headers m.full).trans hrules)

theorem bounds_of_stage (ht : t.stage.Bounded r s) :
    t.commitmentCount ≤ r.maxCommitments ∧ t.bufferCount ≤ r.bufferSize ∧
      t.retained ≤ r.maxCommitments + r.bufferSize + s.history.length + s.locator.length := by
  unfold retained commitmentCount bufferCount chainStart?
  cases hs : t.stage with
  | presync start pass =>
    rw [hs] at ht
    obtain ⟨rfl, hpass⟩ := ht
    simp only
    omega
  | redownload start pass =>
    rw [hs] at ht
    obtain ⟨rfl, hcommitments, hbuffer⟩ := ht
    simp only
    omega
  | final report =>
    simp only
    omega

/-- After any messages the lists of a session are within the bounds settled at its start, and inside
a call of the second pass the buffer holds at most one header more. A finished session keeps no
list. -/
theorem memory_bounded (s : ChainStart) (minWork : UInt256) (params : Params) (config : Config)
    (now : Int) (words : List UInt64) (key : Digest) (ms : List Message) :
    let r := Rules.start s minWork params config now words key
    let t := (Session.start s minWork params config now words key).after ms
    t.rules = r ∧ r.offset < max 1 config.commitmentPeriod.toNat ∧
      t.commitmentCount ≤ r.maxCommitments ∧ t.bufferCount ≤ config.bufferSize.toNat ∧
      (∀ origin pass batch d, t.stage = .redownload origin pass → Redownload.Visits r pass batch d →
        d.buffer.size ≤ config.bufferSize.toNat + 1) ∧
      t.retained ≤ r.maxCommitments + config.bufferSize.toNat + s.history.length +
        s.locator.length ∧
      (t.isFinal = true →
        t.commitmentCount = 0 ∧ t.bufferCount = 0 ∧ t.retained = 0 ∧ t.locator = []) := by
  intro r t
  have hinit : (Session.start s minWork params config now words key).stage.Bounded r s :=
    ⟨rfl, Nat.zero_le _⟩
  obtain ⟨hstage, hrules⟩ : t.stage.Bounded r s ∧ t.rules = r := bounded_after hinit rfl ms
  obtain ⟨hcommitments, hbuffer, hretained⟩ := bounds_of_stage hstage
  have hperiod : 0 < max 1 config.commitmentPeriod.toNat := by omega
  refine ⟨hrules, drawBelow_lt hperiod words, hcommitments, hbuffer, ?_, hretained, ?_⟩
  · intro origin pass batch d hs hv
    rw [hs] at hstage
    exact hstage.2.visits hv
  · intro hfinal
    obtain ⟨report, hs⟩ := stage_of_isFinal hfinal
    simp [commitmentCount, bufferCount, retained, chainStart?, locator, hs]

end Session
end HeaderSync
