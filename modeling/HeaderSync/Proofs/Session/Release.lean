import HeaderSync.Proofs.Session.Answer

/-!
# Released headers

Whatever is fed to a new session, the headers that it hands out are the headers that the second pass
accepted, in their order and with their parents, up to the ones that are still held back.
-/

namespace HeaderSync.Run

/-- The released headers are a linked prefix of the verified ones. As long as the second pass goes
on, exactly the buffer is held back, and relinked it continues the released headers; a session that
ends without an abort holds nothing back. -/
theorem released_continues_to_verified (s : ChainStart) (minWork : UInt256) (params : Params)
    (config : Config) (now : Int) (words : List UInt64) (key : Digest) (ms : List Message) :
    let run := (start (Session.start s minWork params config now words key)).feed ms
    run.released <+: run.verified ∧ LinkedFrom s.id run.released ∧
      (∀ origin pass, run.session.stage = .redownload origin pass →
        run.released.length = run.verified.length - config.bufferSize.toNat ∧
          run.released ++ relink pass.base pass.buffer.toList = run.verified) ∧
      (run.session.isFinal = true → run.session.abort? = none → run.released = run.verified) ∧
      (params.window ≠ 0 → run.fault = none) := by
  intro run
  have hstart := tracks_start s minWork params config now words key
  have ht : run.Tracks _ s := hstart.feed ms
  have hvouched := Cursor.linkedFrom_of_admits ht.vouched.admitted
  refine ⟨ht.released_prefix, hvouched.of_prefix ht.released_prefix, fun origin pass hs => ?_,
    ht.released_eq_of_final, fun hp => fault_feed hstart hp rfl ms⟩
  obtain ⟨-, -, -, hpass, hbelow⟩ := ht.holds_of_stage hs
  have hlen := hpass.length_released
  have hsize := hpass.size_eq
  refine ⟨?_, hpass.relinked⟩
  rcases hbelow with hnil | hrel
  · have hzero : run.released.length = 0 := by
      rw [hnil, List.length_nil] at hlen
      omega
    rw [hzero, hnil, List.length_nil, Nat.zero_sub]
  · have hbuffer : (Rules.start s minWork params config now words key).bufferSize =
        config.bufferSize.toNat := rfl
    rw [hrel, if_neg Bool.false_ne_true, hbuffer] at hsize
    omega

end HeaderSync.Run
