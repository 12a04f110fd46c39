import HeaderSync.Proofs.Session.Run

/-!
# Alignment of the stored bits

Bits are stored and compared by position only. In every run of a new session the queue nevertheless
holds the bits of known heights, so a bit is only ever compared with the header of the height that
it was stored for.
-/

namespace HeaderSync.Run
variable {r : Rules} {s : ChainStart} {run : Run}

/-- While the second pass goes on, the queue holds the bits above the height that it reached. -/
theorem Tracks.toList_commitments (ht : run.Tracks r s) {origin : ChainStart} {pass : Redownload}
    (hs : run.session.stage = .redownload origin pass) :
    pass.commitments.toList =
      r.storedBits s.height run.measured (s.height + run.verified.length) := by
  obtain ⟨-, -, -, hpass, hbelow⟩ := ht.holds_of_stage hs
  exact hpass.toList_eq hbelow

theorem Tracks.heights_of_redownload (ht : run.Tracks r s)
    (hs : run.session.isRedownload = true) :
    run.session.presyncHeight = s.height + run.measured.length ∧
      run.session.redownloadHeight = s.height + run.verified.length := by
  obtain ⟨origin, pass, hstage⟩ := Session.stage_of_isRedownload hs
  obtain ⟨-, -, -, hpass, -⟩ := ht.holds_of_stage hstage
  refine ⟨?_, ?_⟩
  · rw [← hpass.presyncHeight_eq, Session.presyncHeight, hstage]
  · rw [← hpass.height_eq, Session.redownloadHeight, hstage]

theorem Tracks.commitmentCount_of_presync (ht : run.Tracks r s)
    (hs : run.session.isPresync = true) :
    run.session.commitmentCount =
      ((Finset.Ioc s.height run.session.presyncHeight).filter
        fun n => n % r.period = r.offset).card := by
  obtain ⟨origin, pass, hstage⟩ := Session.stage_of_isPresync hs
  obtain ⟨-, hpass, -, -⟩ := ht.holds_of_stage hstage
  have hcount : run.session.commitmentCount = pass.commitments.size := by
    rw [Session.commitmentCount, hstage]
  have hheight : run.session.presyncHeight = pass.cursor.height := by
    rw [Session.presyncHeight, hstage]
  have hlen := r.length_storedBits s.height run.measured
  rw [← hpass.toList_eq, Queue.length_toList] at hlen
  rw [hcount, hheight, hpass.height_eq, hlen]
  rfl

/-- In the second pass the queue holds exactly the bits of the commitment heights that lie above the
height reached there and that the first pass reached. Every header that was accepted at a commitment
height before the work was there has the bit of the first pass's header of the same height. In the
first pass there is one bit for each commitment height so far. -/
theorem commitments_aligned (s : ChainStart) (minWork : UInt256) (params : Params)
    (config : Config) (now : Int) (words : List UInt64) (key : Digest) (ms : List Message) :
    let r := Rules.start s minWork params config now words key
    let run := (start (Session.start s minWork params config now words key)).feed ms
    (∀ origin pass, run.session.stage = .redownload origin pass →
      pass.commitments.toList = r.storedBits s.height run.measured run.session.redownloadHeight ∧
        run.session.presyncHeight = s.height + run.measured.length ∧
        run.session.redownloadHeight = s.height + run.verified.length ∧
        (run.session.presyncHeight ≤ run.session.redownloadHeight →
          pass.commitments.toList = [])) ∧
      (∀ i (hi : i < run.verified.length), r.commitsAt (s.height + i + 1) = true →
        totalWork s.work (run.verified.take (i + 1)) < minWork →
        ∃ h, run.measured[i]? = some h ∧ r.commitment run.verified[i].id = r.commitment h.id) ∧
      (run.session.isPresync = true → run.session.commitmentCount =
        ((Finset.Ioc s.height run.session.presyncHeight).filter
          fun n => n % r.period = r.offset).card) := by
  intro r run
  have ht : run.Tracks r s := (tracks_start s minWork params config now words key).feed ms
  refine ⟨fun origin pass hs => ?_, ht.vouched.matched, ht.commitmentCount_of_presync⟩
  have hbits := ht.toList_commitments hs
  obtain ⟨hpre, hre⟩ := ht.heights_of_redownload (by simp [Session.isRedownload, hs])
  rw [← hre] at hbits
  refine ⟨hbits, hpre, hre, fun hle => ?_⟩
  rw [hbits, r.storedBits_of_length_le (by omega)]

end HeaderSync.Run
