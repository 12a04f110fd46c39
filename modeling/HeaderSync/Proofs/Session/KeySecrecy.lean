import HeaderSync.Proofs.Session.Phases

/-!
# What the key of a session gives away

Two sessions that differ in their keys alone store different bits, as many of them and at the same
heights. Nothing but the comparison in the second pass looks at a stored bit, so a peer that feeds
the same batches to both is answered alike until one of them refuses a bit. The second session is
written as the first with another key and other bits: each part of a call keeps that form.
-/

namespace HeaderSync
attribute [local irreducible] Header.id Compact.work commitmentBit Window.accept

theorem Phase.LeadsTo.eq_presync {p : Phase} (h : p.LeadsTo .presync) : p = .presync := by
  cases h with
  | stay => rfl

def Rules.withKey (r : Rules) (key : Digest) : Rules := { r with key }

variable {r : Rules} {key : Digest} {bits : Queue Bool} {h : Header}

namespace Presync
variable {p : Presync}

def withBits (p : Presync) (bits : Queue Bool) : Presync := { p with commitments := bits }

theorem store_withBits (key : Digest) (h : Header) (hsize : bits.size = p.commitments.size) :
    ∃ bits' : Queue Bool, bits'.size = (p.store r h).1.commitments.size ∧
      (p.withBits bits).store (r.withKey key) h =
        ((p.store r h).1.withBits bits', (p.store r h).2) := by
  have hcommits : (r.withKey key).commitsAt ((p.withBits bits).cursor.height + 1) =
      r.commitsAt (p.cursor.height + 1) := rfl
  unfold store
  rw [hcommits]
  by_cases hc : !r.commitsAt (p.cursor.height + 1)
  · rw [if_pos hc, if_pos hc]
    exact ⟨bits, hsize, rfl⟩
  rw [if_neg hc, if_neg hc]
  by_cases hm : r.maxCommitments ≤ p.commitments.size
  · rw [if_pos hm, if_pos (hsize.symm ▸ hm)]
    exact ⟨bits, hsize, rfl⟩
  · rw [if_neg hm, if_neg (hsize.symm ▸ hm)]
    exact ⟨bits.push ((r.withKey key).commitment h.id), congrArg (· + 1) hsize, rfl⟩

/-- A header that cannot be judged under one key cannot be judged under another, and any other one
fares alike. -/
theorem step_withBits (key : Digest) (h : Header) (hsize : bits.size = p.commitments.size) :
    (∃ e, p.step r h = .error e ∧ (p.withBits bits).step (r.withKey key) h = .error e) ∨
      ∃ p' cause bits', p.step r h = .ok (p', cause) ∧ bits'.size = p'.commitments.size ∧
        (p.withBits bits).step (r.withKey key) h = .ok (p'.withBits bits', cause) := by
  have hrefusal : (p.withBits bits).cursor.refusal? (r.withKey key).params h =
      p.cursor.refusal? r.params h := rfl
  unfold step
  rw [hrefusal]
  cases p.cursor.refusal? r.params h with
  | error e => exact .inl ⟨e, rfl, rfl⟩
  | ok refusal =>
    cases refusal with
    | some cause => exact .inr ⟨p, some cause, bits, rfl, hsize, rfl⟩
    | none =>
      obtain ⟨bits', hsize', hstore⟩ := store_withBits (r := r) key h hsize
      exact .inr ⟨_, _, bits', rfl, hsize', congrArg Except.ok hstore⟩

theorem run_withBits (r : Rules) (key : Digest) (batch : List Header)
    (hsize : bits.size = p.commitments.size) :
    ∃ bits' : Queue Bool, bits'.size = (p.run r batch).1.commitments.size ∧
      (p.withBits bits).run (r.withKey key) batch =
        ((p.run r batch).1.withBits bits', (p.run r batch).2) := by
  induction batch generalizing p bits with
  | nil => exact ⟨bits, hsize, rfl⟩
  | cons h rest ih =>
    unfold run
    obtain ⟨e, hp, hq⟩ | ⟨p', cause, bits', hp, hsize', hq⟩ :=
      step_withBits (r := r) key h hsize
    · rw [hp, hq]
      exact ⟨bits, hsize, rfl⟩
    · rw [hp, hq]
      cases cause with
      | some cause => exact ⟨bits', hsize', rfl⟩
      | none => exact ih hsize'

end Presync

namespace Redownload
variable {d : Redownload}

def withBits (d : Redownload) (bits : Queue Bool) : Redownload := { d with commitments := bits }

/-- The batch was ended by a header with another bit than the stored one. -/
def Outcome.Mismatched (o : Outcome) : Prop :=
  ∃ height, o.ending = .ok (some ⟨.commitmentMismatch, height⟩)

/-- The one place that looks at a stored bit. Two queues as long as each other run out together. -/
theorem store_withBits (hsize : bits.size = d.commitments.size)
    (hd : (d.store r h).2 ≠ some .commitmentMismatch)
    (he : ((d.withBits bits).store (r.withKey key) h).2 ≠ some .commitmentMismatch) :
    ∃ bits' : Queue Bool, bits'.size = (d.store r h).1.commitments.size ∧
      (d.withBits bits).store (r.withKey key) h =
        ((d.store r h).1.withBits bits', (d.store r h).2) := by
  have hcondition : (((d.withBits bits).weigh h).isReleasing (r.withKey key) ||
      !(r.withKey key).commitsAt ((d.withBits bits).cursor.height + 1)) =
        ((d.weigh h).isReleasing r || !r.commitsAt (d.cursor.height + 1)) := rfl
  unfold store at hd he ⊢
  rw [hcondition] at he ⊢
  by_cases hc : (d.weigh h).isReleasing r || !r.commitsAt (d.cursor.height + 1)
  · rw [if_pos hc, if_pos hc]
    exact ⟨bits, hsize, rfl⟩
  rw [if_neg hc] at hd he ⊢
  rw [if_neg hc]
  have hbits : (d.withBits bits).commitments = bits := rfl
  rw [hbits] at he ⊢
  cases hp : d.commitments.pop? with
  | none =>
    have hempty : bits.size = 0 := hsize.trans (Queue.size_eq_zero_of_pop? hp)
    cases hq : bits.pop? with
    | none => exact ⟨bits, hsize, rfl⟩
    | some popped => exact absurd (Queue.size_of_pop? hq) (by omega)
  | some popped =>
    obtain ⟨bit, left⟩ := popped
    have hleft := Queue.size_of_pop? hp
    cases hq : bits.pop? with
    | none => exact absurd (Queue.size_eq_zero_of_pop? hq) (by omega)
    | some popped =>
      obtain ⟨bit', left'⟩ := popped
      have hleft' := Queue.size_of_pop? hq
      simp only [hp] at hd
      simp only [hq] at he
      -- Where the bits differ, one session may refuse the header and the other accept it.
      by_cases hbit : r.commitment h.id = bit
      · by_cases hbit' : (r.withKey key).commitment h.id = bit'
        · simp only [if_pos hbit, if_pos hbit']
          refine ⟨left', ?_, rfl⟩
          change left'.size = left.size
          omega
        · rw [if_neg hbit'] at he
          exact absurd rfl he
      · rw [if_neg hbit] at hd
        exact absurd rfl hd

theorem step_withBits (hsize : bits.size = d.commitments.size)
    (hd : ∀ d', d.step r h ≠ .ok (d', some .commitmentMismatch))
    (he : ∀ d', (d.withBits bits).step (r.withKey key) h ≠ .ok (d', some .commitmentMismatch)) :
    (∃ e, d.step r h = .error e ∧ (d.withBits bits).step (r.withKey key) h = .error e) ∨
      ∃ d' cause bits', d.step r h = .ok (d', cause) ∧ bits'.size = d'.commitments.size ∧
        (d.withBits bits).step (r.withKey key) h = .ok (d'.withBits bits', cause) := by
  have hrefusal : (d.withBits bits).cursor.refusal? (r.withKey key).params h =
      d.cursor.refusal? r.params h := rfl
  unfold step at hd he ⊢
  rw [hrefusal] at he ⊢
  cases hr : d.cursor.refusal? r.params h with
  | error e => exact .inl ⟨e, rfl, rfl⟩
  | ok refusal =>
    rw [hr] at hd he
    cases refusal with
    | some cause => exact .inr ⟨d, some cause, bits, rfl, hsize, rfl⟩
    | none =>
      obtain ⟨bits', hsize', hstore⟩ :=
        store_withBits hsize (fun hm => hd _ (congrArg Except.ok (Prod.ext rfl hm)))
          (fun hm => he _ (congrArg Except.ok (Prod.ext rfl hm)))
      exact .inr ⟨_, _, bits', rfl, hsize', congrArg Except.ok hstore⟩

theorem release_withBits (d : Redownload) (bits : Queue Bool) (count : Nat) :
    (d.withBits bits).release count = ((d.release count).1, (d.release count).2.withBits bits) := by
  induction count generalizing d with
  | zero => rfl
  | succ count ih =>
    have hbuffer : (d.withBits bits).buffer = d.buffer := rfl
    unfold release
    rw [hbuffer]
    cases d.buffer.pop? with
    | none => rfl
    | some popped =>
      obtain ⟨c, buffer⟩ := popped
      have hrest := ih { d with buffer, base := (c.restore d.base).id }
      exact congrArg (fun out => (c.restore d.base :: out.1, out.2)) hrest

theorem run_withBits (hsize : bits.size = d.commitments.size) (batch : List Header)
    (hd : ¬ (d.run r batch).Mismatched)
    (he : ¬ ((d.withBits bits).run (r.withKey key) batch).Mismatched) :
    ∃ bits' : Queue Bool, bits'.size = (d.run r batch).pass.commitments.size ∧
      (d.withBits bits).run (r.withKey key) batch =
        { d.run r batch with pass := (d.run r batch).pass.withBits bits' } := by
  induction batch generalizing d bits with
  | nil => exact ⟨bits, hsize, rfl⟩
  | cons h rest ih =>
    unfold run at hd he ⊢
    obtain ⟨e, hp, hq⟩ | ⟨d', cause, bits', hp, hsize', hq⟩ :=
      step_withBits hsize (fun d' hm => hd ⟨d.cursor.height + 1, by rw [hm]⟩)
        (fun d' hm => he ⟨(d.withBits bits).cursor.height + 1, by rw [hm]⟩)
    · rw [hp, hq]
      exact ⟨bits, hsize, rfl⟩
    · rw [hp] at hd ⊢
      rw [hq] at he ⊢
      cases cause with
      | some cause => exact ⟨bits', hsize', rfl⟩
      | none =>
        have hcount : (d'.withBits bits').releasable (r.withKey key) = d'.releasable r := rfl
        simp only [hcount, release_withBits] at he ⊢
        have hsame := (d'.size_release (d'.releasable r)).1
        obtain ⟨bits'', hsize'', hrun⟩ := ih (hsize'.trans (congrArg Queue.size hsame).symm) hd he
        exact ⟨bits'', hsize'', by rw [hrun]⟩

end Redownload

def Stage.withBits (bits : Queue Bool) : Stage → Stage
  | .presync start pass => .presync start (pass.withBits bits)
  | .redownload start pass => .redownload start (pass.withBits bits)
  | .final report => .final report

structure View where
  phase : Phase
  abort : Option Abort
  locator : List Digest
  presyncHeight : Nat
  presyncWork : UInt256
  redownloadHeight : Nat
  redownloadWork : UInt256
  commitmentCount : Nat
  bufferCount : Nat
  retained : Nat

namespace Session
variable {s : Session}

def view (s : Session) : View :=
  { phase := s.phase
    abort := s.abort?
    locator := s.locator
    presyncHeight := s.presyncHeight
    presyncWork := s.presyncWork
    redownloadHeight := s.redownloadHeight
    redownloadWork := s.redownloadWork
    commitmentCount := s.commitmentCount
    bufferCount := s.bufferCount
    retained := s.retained }

/-- What is seen of a session while it takes some messages: the answer to each, and the view after
it. -/
def transcript (s : Session) : List Message → List (Except Retarget.Error Reply × View)
  | [] => []
  | m :: ms =>
    let next := s.process m.headers m.full
    (next.2, next.1.view) :: next.1.transcript ms

def withSecrets (s : Session) (key : Digest) (bits : Queue Bool) : Session :=
  ⟨s.rules.withKey key, s.stage.withBits bits⟩

/-- The session was aborted at a header with another bit than the stored one. -/
def Mismatched (s : Session) : Prop := ∃ height, s.abort? = some ⟨.commitmentMismatch, height⟩

theorem view_withSecrets (hsize : bits.size = s.commitmentCount) :
    (s.withSecrets key bits).view = s.view := by
  obtain ⟨rules, stage⟩ := s
  have hcount : (withSecrets ⟨rules, stage⟩ key bits).commitmentCount =
      commitmentCount ⟨rules, stage⟩ := by
    cases stage with
    | presync start pass => exact hsize
    | redownload start pass => exact hsize
    | final report => rfl
  unfold view retained
  rw [hcount]
  cases stage <;> rfl

/-- The second outcome of a call is the first one with another key and other bits stored. -/
def Alike (key : Digest) (x y : Session × Except Retarget.Error Reply) : Prop :=
  ∃ bits : Queue Bool, bits.size = x.1.commitmentCount ∧ y = (x.1.withSecrets key bits, x.2)

/-- The first pass never looks at the bits that it stores. -/
theorem processPresync_withSecrets {start : ChainStart} {pass : Presync}
    (hsize : bits.size = pass.commitments.size) (batch : List Header) (full : Bool) :
    Alike key (s.processPresync start pass batch full)
      ((s.withSecrets key bits).processPresync start (pass.withBits bits) batch full) := by
  obtain ⟨bits', hsize', hrun⟩ := Presync.run_withBits s.rules key batch hsize
  have hrules : (s.withSecrets key bits).rules = s.rules.withKey key := rfl
  unfold processPresync
  rw [hrules, hrun]
  generalize pass.run s.rules batch = outcome at hsize' ⊢
  obtain ⟨pass', ending⟩ := outcome
  cases ending with
  | error e => exact ⟨bits', hsize', rfl⟩
  | ok abort =>
    cases abort with
    | some abort => exact ⟨.empty, rfl, rfl⟩
    | none =>
      have hminWork : (s.rules.withKey key).minWork = s.rules.minWork := rfl
      have hcursor : (pass'.withBits bits').cursor = pass'.cursor := rfl
      simp only [hminWork, hcursor]
      by_cases hw : s.rules.minWork ≤ pass'.cursor.work
      · rw [if_pos hw, if_pos hw]
        exact ⟨bits', hsize', rfl⟩
      rw [if_neg hw, if_neg hw]
      cases full with
      | true => exact ⟨bits', hsize', rfl⟩
      | false => exact ⟨.empty, rfl, rfl⟩

theorem mismatched_processRedownload {start : ChainStart} {pass : Redownload}
    {batch : List Header} {full : Bool} (hm : (pass.run s.rules batch).Mismatched) :
    (s.processRedownload start pass batch full).1.Mismatched := by
  obtain ⟨height, hending⟩ := hm
  unfold processRedownload
  generalize pass.run s.rules batch = o at hending ⊢
  obtain ⟨pass', released, ending⟩ := o
  subst hending
  exact ⟨height, rfl⟩

theorem processRedownload_withSecrets {start : ChainStart} {pass : Redownload}
    (hsize : bits.size = pass.commitments.size) {batch : List Header} {full : Bool}
    (hs : ¬ (s.processRedownload start pass batch full).1.Mismatched)
    (ht : ¬ ((s.withSecrets key bits).processRedownload start (pass.withBits bits) batch
      full).1.Mismatched) :
    Alike key (s.processRedownload start pass batch full)
      ((s.withSecrets key bits).processRedownload start (pass.withBits bits) batch full) := by
  have hrules : (s.withSecrets key bits).rules = s.rules.withKey key := rfl
  obtain ⟨bits', hsize', hrun⟩ := Redownload.run_withBits hsize batch
    (mt mismatched_processRedownload hs)
    (mt (mismatched_processRedownload (s := s.withSecrets key bits)) ht)
  clear hs ht
  unfold processRedownload
  rw [hrules, hrun]
  generalize pass.run s.rules batch = o at hsize' ⊢
  obtain ⟨pass', released, ending⟩ := o
  cases ending with
  | error e => exact ⟨bits', hsize', rfl⟩
  | ok abort =>
    cases abort with
    | some abort => exact ⟨.empty, rfl, rfl⟩
    | none =>
      have hcondition : ((pass'.withBits bits').buffer.isEmpty &&
          (pass'.withBits bits').isReleasing (s.rules.withKey key)) =
            (pass'.buffer.isEmpty && pass'.isReleasing s.rules) := rfl
      simp only [hcondition]
      by_cases hw : pass'.buffer.isEmpty && pass'.isReleasing s.rules
      · rw [if_pos hw, if_pos hw]
        exact ⟨.empty, rfl, rfl⟩
      rw [if_neg hw, if_neg hw]
      cases full with
      | true => exact ⟨bits', hsize', rfl⟩
      | false => exact ⟨.empty, rfl, rfl⟩

theorem process_withSecrets_of_presync (hsize : bits.size = s.commitmentCount)
    (hs : s.phase = .presync) (batch : List Header) (full : Bool) :
    Alike key (s.process batch full) ((s.withSecrets key bits).process batch full) := by
  by_cases hb : batch = []
  · rw [process_of_ignored (.inl hb), process_of_ignored (.inl hb)]
    exact ⟨bits, hsize, rfl⟩
  obtain ⟨start, pass, hstage⟩ := stage_of_isPresync (phase_eq_presync.mp hs)
  have hstage' : (s.withSecrets key bits).stage = .presync start (pass.withBits bits) :=
    congrArg (Stage.withBits bits) hstage
  have hcount : s.commitmentCount = pass.commitments.size := by rw [commitmentCount, hstage]
  rw [process_of_presync hstage hb, process_of_presync hstage' hb]
  exact processPresync_withSecrets (hsize.trans hcount) batch full

theorem process_withSecrets (hsize : bits.size = s.commitmentCount) {batch : List Header}
    {full : Bool} (hs : ¬ (s.process batch full).1.Mismatched)
    (ht : ¬ ((s.withSecrets key bits).process batch full).1.Mismatched) :
    Alike key (s.process batch full) ((s.withSecrets key bits).process batch full) := by
  by_cases hb : batch = []
  · rw [process_of_ignored (.inl hb), process_of_ignored (.inl hb)]
    exact ⟨bits, hsize, rfl⟩
  cases hstage : s.stage with
  | presync start pass => exact process_withSecrets_of_presync hsize (phase_of_presync hstage) _ _
  | redownload start pass =>
    have hstage' : (s.withSecrets key bits).stage = .redownload start (pass.withBits bits) :=
      congrArg (Stage.withBits bits) hstage
    have hcount : s.commitmentCount = pass.commitments.size := by rw [commitmentCount, hstage]
    rw [process_of_redownload hstage hb] at hs ⊢
    rw [process_of_redownload hstage' hb] at ht ⊢
    exact processRedownload_withSecrets (hsize.trans hcount) hs ht
  | final report =>
    have hfinal : s.phase = .final := by rw [phase, hstage]
    have hfinal' : (s.withSecrets key bits).phase = .final := by
      rw [phase, withSecrets, hstage, Stage.withBits]
    rw [process_of_ignored (.inr hfinal), process_of_ignored (.inr hfinal')]
    exact ⟨bits, hsize, rfl⟩

/-- An abort is final. -/
theorem Mismatched.after (hs : s.Mismatched) (ms : List Message) : (s.after ms).Mismatched := by
  have hfinal : s.phase = .final := by
    by_contra hopen
    obtain ⟨height, habort⟩ := hs
    rw [abort?_of_ne_final hopen] at habort
    cases habort
  induction ms with
  | nil => exact hs
  | cons m ms ih =>
    change ((s.process m.headers m.full).1.after ms).Mismatched
    rw [process_of_ignored (.inr hfinal)]
    exact ih

/-- As long as no bit is refused, each call leaves two sessions that differ in their secrets
alone. -/
theorem transcript_withSecrets (hsize : bits.size = s.commitmentCount) {ms : List Message}
    (hs : ¬ (s.after ms).Mismatched) (ht : ¬ ((s.withSecrets key bits).after ms).Mismatched) :
    s.transcript ms = (s.withSecrets key bits).transcript ms ∧
      ∃ bits' : Queue Bool, bits'.size = (s.after ms).commitmentCount ∧
        (s.withSecrets key bits).after ms = (s.after ms).withSecrets key bits' := by
  induction ms generalizing s bits with
  | nil => exact ⟨rfl, bits, hsize, rfl⟩
  | cons m ms ih =>
    obtain ⟨bits', hsize', hcall⟩ : Alike key _ _ :=
      process_withSecrets hsize (fun hm => hs (hm.after ms)) (fun hm => ht (hm.after ms))
    have hnext : (s.withSecrets key bits).after (m :: ms) =
        ((s.process m.headers m.full).1.withSecrets key bits').after ms :=
      congrArg (fun next => next.1.after ms) hcall
    rw [hnext] at ht ⊢
    obtain ⟨hrest, hafter⟩ := ih hsize' hs ht
    refine ⟨?_, hafter⟩
    simp only [transcript]
    rw [hcall, hrest, view_withSecrets hsize']

/-- A session that is in its first pass has never left it. -/
theorem phase_of_after {ms : List Message} (hs : (s.after ms).phase = .presync) :
    s.phase = .presync := by
  induction ms generalizing s with
  | nil => exact hs
  | cons m ms ih => exact (ih hs ▸ s.leadsTo_process m.headers m.full).eq_presync

/-- The first pass refuses no bit, nor does the call that ends it. -/
theorem transcript_of_presync (hsize : bits.size = s.commitmentCount) {ms : List Message}
    (hs : (s.after ms).phase = .presync) (m : Message) :
    s.transcript (ms ++ [m]) = (s.withSecrets key bits).transcript (ms ++ [m]) := by
  induction ms generalizing s bits with
  | nil =>
    obtain ⟨bits', hsize', hcall⟩ : Alike key _ _ :=
      process_withSecrets_of_presync hsize hs m.headers m.full
    simp only [List.nil_append, transcript]
    rw [hcall, view_withSecrets hsize']
  | cons first ms ih =>
    obtain ⟨bits', hsize', hcall⟩ : Alike key _ _ :=
      process_withSecrets_of_presync hsize (phase_of_after hs) first.headers first.full
    simp only [List.cons_append, transcript]
    rw [hcall, ih hsize' hs, view_withSecrets hsize']

/-- Two new sessions that are equal but for their keys look alike. Fed the same messages they give
the same replies and look alike after each of them until one of the two is aborted by a mismatch,
and until then they differ in nothing but the key and the values of the bits stored. The first pass
gives nothing away at all: while it lasts, and in the call that ends it, the replies and the views
are the same under every key. -/
theorem key_hidden_until_mismatch (start : ChainStart) (minWork : UInt256) (params : Params)
    (config : Config) (now : Int) (words : List UInt64) (key key' : Digest) (ms : List Message) :
    let s := Session.start start minWork params config now words key
    let t : Session := { s with rules := { s.rules with key := key' } }
    t = Session.start start minWork params config now words key' ∧ s.view = t.view ∧
      (¬ (s.after ms).Mismatched → ¬ (t.after ms).Mismatched →
        s.transcript ms = t.transcript ms ∧
          ∃ bits : Queue Bool, bits.size = (s.after ms).commitmentCount ∧
            t.after ms = (s.after ms).withSecrets key' bits) ∧
      ((s.after ms).phase = .presync →
        ∀ m, s.transcript (ms ++ [m]) = t.transcript (ms ++ [m])) := by
  intro s t
  have ht : t = s.withSecrets key' .empty := rfl
  have hsize : (Queue.empty : Queue Bool).size = s.commitmentCount := rfl
  refine ⟨rfl, ?_, ?_, ?_⟩
  · rw [ht, view_withSecrets hsize]
  · rw [ht]
    exact transcript_withSecrets hsize
  · rw [ht]
    exact transcript_of_presync hsize

end Session
end HeaderSync
