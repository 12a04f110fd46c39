import HeaderSync.Proofs.ChainIndex.MedianTimes
import HeaderSync.Proofs.Session.HonestChain
import Mathlib.Data.Nat.ModEq

/-!
# How many bits a chain needs

A session allows one bit for each full period of the headers that time allows. The headers of a run
that are committed to depend on where the offset falls among the heights, and there may be one more
of them than full periods. So a branch that keeps the time rules can be a single bit too long, and
never by more than that.
-/

namespace HeaderSync

namespace Rules
variable {r : Rules} {s : ChainStart} {before : List Header} {h : Header}

/-- Each period has one commitment height. -/
theorem committedHeights_le_of_le_mul (hp : 0 < r.period) (base : Nat) {count k : Nat}
    (hk : count ≤ k * r.period) : r.committedHeights base count ≤ k := by
  calc
    r.committedHeights base count ≤ (Finset.range k).card := by
      apply Finset.card_le_card_of_injOn fun n => (n - base - 1) / r.period
      · intro n hn
        have hheight := Finset.mem_Ioc.mp (Finset.mem_filter.mp hn).1
        apply Finset.mem_coe.mpr
        rw [Finset.mem_range, Nat.div_lt_iff_lt_mul hp]
        omega
      · intro m hm n hn hquotient
        obtain ⟨hm, hmoffset⟩ := Finset.mem_filter.mp hm
        obtain ⟨hn, hnoffset⟩ := Finset.mem_filter.mp hn
        rw [Finset.mem_Ioc] at hm hn
        -- Two heights of one period that leave the same remainder are the same height.
        have hmod : (m - base - 1) % r.period = (n - base - 1) % r.period := by
          apply Nat.ModEq.add_right_cancel' (base + 1)
          rw [show m - base - 1 + (base + 1) = m by omega,
            show n - base - 1 + (base + 1) = n by omega]
          exact hmoffset.trans hnoffset.symm
        have hsame : m - base - 1 = n - base - 1 := by
          rw [← Nat.div_add_mod (m - base - 1) r.period, ← Nat.div_add_mod (n - base - 1) r.period,
            hmod]
          exact congrArg (r.period * · + _) hquotient
        omega
    _ = k := Finset.card_range k

theorem linkVerdict_ne_overrun (r : Rules) (s : ChainStart) (before : List Header) (h : Header) :
    r.linkVerdict s before h ≠ .ok (some .commitmentOverrun) := by
  unfold linkVerdict
  split_ifs
  · nofun
  · dsimp only
    cases Window.permits r.params _ _ _ _ with
    | error e => nofun
    | ok permitted => cases permitted <;> nofun

/-- An overrun means that the heights up to this header have more bits than there may be. -/
theorem lt_committedHeights_of_overrun
    (hv : r.measuringVerdict s before h = .ok (some .commitmentOverrun)) :
    r.maxCommitments < r.committedHeights s.height (before.length + 1) := by
  unfold measuringVerdict at hv
  cases hl : r.linkVerdict s before h with
  | error e =>
    rw [hl] at hv
    cases hv
  | ok refusal =>
    rw [hl] at hv
    cases refusal with
    | some cause =>
      cases hv
      exact absurd hl (r.linkVerdict_ne_overrun s before h)
    | none =>
      have hoffence : r.measuringOffence? s before = some .commitmentOverrun := Except.ok.inj hv
      unfold measuringOffence? at hoffence
      split_ifs at hoffence with hc
      exact hc.2

end Rules

namespace Run

/-- An abort over a header in the first pass, in terms of everything fed so far. -/
theorem firstOffence_of_isPresync (s : ChainStart) (minWork : UInt256) (params : Params)
    (config : Config) (now : Int) (words : List UInt64) (key : Digest) (ms : List Message)
    (batch : List Header) (full : Bool) :
    let r := Rules.start s minWork params config now words key
    let run := (start (Session.start s minWork params config now words key)).feed ms
    run.fault = none → run.session.isPresync = true → ∀ abort : Abort,
      (run.session.process batch full).1.abort? = some abort →
      abort.cause ≠ .incompleteMessage →
      Verdict.FirstOffence (r.measuringVerdict s) s.height (ms.flatMap Message.headers) batch
        abort := by
  intro r run hf hpre abort habort hcause
  have hinit := tracks_start s minWork params config now words key
  have hnew : (start (Session.start s minWork params config now words key)).Unrefused r s [] [] :=
    ⟨fun _ => ⟨rfl, rfl, Verdict.clean_nil _⟩, nofun⟩
  have ht : run.Tracks r s := hinit.feed ms
  obtain ⟨origin, pass, hs⟩ := Session.stage_of_isPresync hpre
  obtain ⟨rfl, hpass, -⟩ := ht.holds_of_stage hs
  obtain ⟨hm, -, hc⟩ := (hnew.feed hinit ms hf).presync hpre
  have hfed : run.measured = ms.flatMap Message.headers :=
    measured_of_isPresync hinit rfl rfl ms hf hpre
  rw [← hm, hfed] at hc
  rw [hfed] at hpass
  have hending : run.session.ending batch =
      Verdict.judge (r.measuringVerdict origin) origin.height (ms.flatMap Message.headers) batch := by
    rw [Session.ending, hs, ht.rules_eq]
    exact hpass.run_judge batch
  have hopen : run.session.isFinal = false := by rw [Session.isFinal, hs]
  exact (Session.aborts_iff_firstOffence hopen hc (r.measuringVerdict_ne origin) hending abort).mp
    ⟨habort, hcause⟩

end Run

/-- Where no bit may be stored and the first height is committed to, the first header is one too
many, whatever chain it belongs to. -/
theorem Session.overruns_at_once (c : ChainStart) (minWork : UInt256) (params : Params)
    (config : Config) (now : Int) (words : List UInt64) (key : Digest) {h : Header}
    (hlink : h.parent = c.id) (hlow : c.height + 1 ≤ params.switchHeight.toNat + params.window)
    (hcommit : (Rules.start c minWork params config now words key).commitsAt (c.height + 1) = true)
    (hmax : (Rules.start c minWork params config now words key).maxCommitments = 0)
    (rest : List Header) (full : Bool) :
    ((Session.start c minWork params config now words key).process (h :: rest) full).1.abort? =
      some ⟨.commitmentOverrun, c.height + 1⟩ := by
  let r := Rules.start c minWork params config now words key
  have hverdict : r.linkVerdict c [] h = .ok none := by
    have hlink' : ¬ h.parent ≠ tipId c.id [] := not_not.mpr hlink
    rw [Rules.linkVerdict, if_neg hlink']
    exact congrArg (· >>= _) (Window.permits_of_le hlow _ _ _)
  have hone := r.committedHeights_succ c.height 0
  rw [if_pos hcommit] at hone
  have hoffence : r.measuringOffence? c [] = some .commitmentOverrun :=
    if_pos ⟨hcommit, by rw [show r.maxCommitments = 0 from hmax]; exact hone ▸ Nat.succ_pos _⟩
  have hrun := (Presync.tracks_start r c).run_judge (h :: rest)
  rw [Verdict.judge, Rules.measuringVerdict, hverdict, Except.map, Option.none_or, hoffence] at hrun
  refine (Session.abort?_process rfl ?_).mpr hrun
  intro hcause
  cases hcause

namespace Run

/-- The times of a branch never let it have more headers than the bound on the bits allows for. If
a session that measures the branch runs out of bits all the same, the bound has been rounded down to
full periods: the branch is longer than these and needs exactly one bit more. -/
theorem overrun_one_bit_short {i : ChainIndex} (hi : i.Built) {id : Digest} {origin : Entry}
    (hs : i.get? id = some origin) {ds : List Entry} (hds : i.Descends origin ds)
    (ht : OnTime origin ds) (config : Config) (now : Int64)
    (hlatest : ∀ e ∈ ds, e.header.seconds ≤ now.toInt + config.maxFutureTime.toInt) {count : Nat}
    {c : ChainStart} (hc : i.chainStart? id count = some c) (minWork : UInt256) (params : Params)
    (words : List UInt64) (key : Digest) {batches : List (List Header)} {batch : List Header}
    (hfed : (batches ++ [batch]).flatten <+: ds.map Entry.header) :
    let r := Rules.start c minWork params config now.toInt words key
    let run := (start (Session.start c minWork params config now.toInt words key)).feed
      (batches.map Message.ofBatch)
    let budget := headerBudget c.medianTime (now.toInt + config.maxFutureTime.toInt)
    ds.length ≤ budget ∧ r.maxCommitments = budget / r.period ∧
      (run.fault = none → run.session.isPresync = true → ∀ abort,
        (run.session.process batch true).1.abort? = some abort →
        abort.cause = .commitmentOverrun →
        ¬ r.period ∣ budget ∧ r.period * r.maxCommitments < ds.length ∧
          r.committedHeights c.height ds.length = r.maxCommitments + 1) := by
  intro r run budget
  have hwf := hi.wellFormed
  have hmedian := (ChainIndex.chainStart?_of_get? hs hc).2.2
  have hbudget : ds.length ≤ budget := by
    have hs' : i.get? origin.id = some origin := (hwf.id_of_get? hs).symm ▸ hs
    have hlength := hwf.length_le_headerBudget hs' hds ht hlatest
    rwa [← hmedian] at hlength
  have hmax : r.maxCommitments = budget / r.period :=
    Rules.maxCommitments_start c (hmedian ▸ hwf.medianTime_nonneg hs) minWork params config now words
      key
  have hperiod : 0 < r.period := Nat.le_max_left 1 _
  refine ⟨hbudget, hmax, ?_⟩
  intro hf hpre abort habort hcause
  obtain ⟨before, h, after, rfl, -, hverdict, -⟩ :=
    firstOffence_of_isPresync c minWork params config now.toInt words key _ batch true hf hpre abort
      habort (by rw [hcause]; nofun)
  rw [hcause] at hverdict
  have hover : r.maxCommitments < r.committedHeights c.height ds.length := by
    have hlt := Rules.lt_committedHeights_of_overrun hverdict
    apply Nat.lt_of_lt_of_le hlt
    apply r.committedHeights_mono
    have hlength := hfed.length_le
    simp [List.flatMap_map, Message.ofBatch] at hlength ⊢
    omega
  have hnext : ds.length ≤ (r.maxCommitments + 1) * r.period := by
    have hround := Nat.lt_mul_div_succ budget hperiod
    rw [← hmax, Nat.mul_comm] at hround
    omega
  have hbits := Rules.committedHeights_le_of_le_mul hperiod c.height hnext
  refine ⟨?_, ?_, by omega⟩
  · intro hdvd
    have hfull : budget = r.maxCommitments * r.period := by rw [hmax, Nat.div_mul_cancel hdvd]
    have hfew := Rules.committedHeights_le_of_le_mul hperiod c.height (hfull ▸ hbudget)
    omega
  · apply Nat.lt_of_not_le
    intro hle
    rw [Nat.mul_comm] at hle
    have hfew := Rules.committedHeights_le_of_le_mul hperiod c.height hle
    omega

/-- With a second left there is time for six headers but for no full period of them, so a session
that draws the first height for its bits refuses the first header. -/
theorem overrun_with_a_second_left {c : ChainStart} {h : Header} (hlink : h.parent = c.id)
    (hheight : c.height = 0) (hmedian : c.medianTime = 1700000000) :
    let now : Int64 := 1699992801
    ((Session.start c (.wrap 360) Params.regtest {} now.toInt [30744573456182587] .zero).process [h]
      true).1.abort? = some ⟨.commitmentOverrun, 1⟩ := by
  intro now
  let r := Rules.start c (.wrap 360) Params.regtest {} now.toInt [30744573456182587] .zero
  have hone : c.height + 1 = 1 := by rw [hheight]
  have hcommit : r.commitsAt (c.height + 1) = true := by
    have hoffset : r.offset =
        drawBelow (max 1 ({} : Config).commitmentPeriod.toNat) [30744573456182587] := rfl
    have hdraw : drawBelow (max 1 ({} : Config).commitmentPeriod.toNat) [30744573456182587] = 1 := by
      decide
    rw [hone, Rules.commitsAt, hoffset, hdraw]
    rfl
  have hmax : r.maxCommitments = 0 := by
    rw [Rules.maxCommitments_start c (by rw [hmedian]; decide), hmedian]
    decide
  rw [Session.overruns_at_once c _ _ _ _ _ _ hlink (by rw [hone]; decide) hcommit hmax, hone]

/-- The branch of a first block and a child one second later needs one bit and is allowed none. -/
theorem overrun_one_bit_short_child :
    let g : Header := ⟨1, .zero, .zero, 1700000000, ⟨0x200f0f0f⟩, 0⟩
    let h : Header := ⟨4, g.id, .zero, 1700000001, ⟨0x200f0f0f⟩, 0⟩
    let origin : Entry := .genesis g
    let e : Entry := .child h origin []
    let i : ChainIndex := (ChainIndex.empty.add origin []).add e [origin]
    let now : Int64 := 1699992801
    i.Built ∧ i.get? g.id = some origin ∧ i.Descends origin [e] ∧ OnTime origin [e] ∧
      (∀ x ∈ [e], x.header.seconds ≤ now.toInt + ({} : Config).maxFutureTime.toInt) ∧
      ∃ c, i.chainStart? g.id (Session.historyLength Params.regtest) = some c ∧
        let words := [30744573456182587]
        let r := Rules.start c (.wrap 360) Params.regtest {} now.toInt words .zero
        let session := Session.start c (.wrap 360) Params.regtest {} now.toInt words .zero
        session.isPresync = true ∧ (session.process [h] true).1.abort? =
          some ⟨.commitmentOverrun, 1⟩ ∧
        ¬ r.period ∣ headerBudget c.medianTime (now.toInt + ({} : Config).maxFutureTime.toInt) ∧
        r.period * r.maxCommitments < 1 ∧
        r.committedHeights c.height 1 = r.maxCommitments + 1 := by
  intro g h origin e i now
  obtain ⟨hi, hs, hds, ht, hlatest⟩ := ChainIndex.built_second_later
  obtain ⟨c, hc⟩ : ∃ c, i.chainStart? g.id (Session.historyLength Params.regtest) = some c := by
    rw [ChainIndex.chainStart?, hs]
    exact ⟨_, rfl⟩
  obtain ⟨hid, hheight, hmedian⟩ := ChainIndex.chainStart?_of_get? hs hc
  have habort := overrun_with_a_second_left (h := h) hid.symm hheight hmedian
  have hfed : ([] ++ [[h]]).flatten <+: [e].map Entry.header := List.prefix_refl [h]
  obtain ⟨-, -, hshort⟩ := overrun_one_bit_short hi hs hds ht {} now hlatest hc (.wrap 360)
    Params.regtest [30744573456182587] .zero hfed
  exact ⟨hi, hs, hds, ht, hlatest, c, hc, rfl, habort, hshort rfl rfl _ habort rfl⟩

/-- A branch within the time rules that a session refuses for its length. -/
theorem overrun_within_time :
    let g : Header := ⟨1, .zero, .zero, 1700000000, ⟨0x200f0f0f⟩, 0⟩
    let h : Header := ⟨4, g.id, .zero, 1700000001, ⟨0x200f0f0f⟩, 0⟩
    let origin : Entry := .genesis g
    let e : Entry := .child h origin []
    let i : ChainIndex := (ChainIndex.empty.add origin []).add e [origin]
    let now : Int64 := 1699992801
    i.Built ∧ i.get? g.id = some origin ∧ i.Descends origin [e] ∧ OnTime origin [e] ∧
      (∀ x ∈ [e], x.header.seconds ≤ now.toInt + ({} : Config).maxFutureTime.toInt) ∧
      ∃ c, i.chainStart? g.id (Session.historyLength Params.regtest) = some c ∧
        let session :=
          Session.start c (.wrap 360) Params.regtest {} now.toInt [30744573456182587] .zero
        session.isPresync = true ∧
          (session.process [h] true).1.abort? = some ⟨.commitmentOverrun, 1⟩ := by
  intro g h origin e i now
  obtain ⟨hi, hs, hds, ht, hlatest⟩ := ChainIndex.built_second_later
  obtain ⟨c, hc⟩ : ∃ c, i.chainStart? g.id (Session.historyLength Params.regtest) = some c := by
    rw [ChainIndex.chainStart?, hs]
    exact ⟨_, rfl⟩
  obtain ⟨hid, hheight, hmedian⟩ := ChainIndex.chainStart?_of_get? hs hc
  exact ⟨hi, hs, hds, ht, hlatest, c, hc, rfl,
    overrun_with_a_second_left (h := h) hid.symm hheight hmedian⟩

end Run
end HeaderSync
