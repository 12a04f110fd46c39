import HeaderSync.Params.Preset
import HeaderSync.Proofs.Session.Phases

/-!
# Where a peer cuts its messages

A pass goes through its headers one by one, and enough work only matters at the end of a batch. So a
batch that leaves the session in its phase can just as well be sent together with the next one: the
session, its reply and the released headers are those of the two calls.
-/

namespace HeaderSync
variable {r : Rules}

theorem Presync.run_append {p p' : Presync} {xs : List Header} (h : p.run r xs = (p', .ok none))
    (ys : List Header) : p.run r (xs ++ ys) = p'.run r ys := by
  induction xs generalizing p with
  | nil =>
    obtain ⟨rfl, -⟩ := Prod.mk.inj h
    rfl
  | cons x rest ih =>
    cases hp : p.step r x with
    | error e => simp [run, hp] at h
    | ok outcome =>
      obtain ⟨next, cause⟩ := outcome
      cases cause with
      | some cause => simp [run, hp] at h
      | none =>
        have hnext (more : List Header) : p.run r (x :: more) = next.run r more := by
          rw [run, hp]
        rw [hnext] at h
        rw [List.cons_append, hnext]
        exact ih h

/-- What the headers before have released comes first. -/
theorem Redownload.run_append {d d' : Redownload} {xs released : List Header}
    (h : d.run r xs = ⟨d', released, .ok none⟩) (ys : List Header) :
    d.run r (xs ++ ys) =
      { d'.run r ys with released := released ++ (d'.run r ys).released } := by
  induction xs generalizing d released with
  | nil =>
    cases h
    rfl
  | cons x rest ih =>
    cases hd : d.step r x with
    | error e => simp [run, hd] at h
    | ok outcome =>
      obtain ⟨next, cause⟩ := outcome
      cases cause with
      | some cause => simp [run, hd] at h
      | none =>
        let ready := next.release (next.releasable r)
        have hnext (more : List Header) : d.run r (x :: more) =
            { ready.2.run r more with released := ready.1 ++ (ready.2.run r more).released } := by
          rw [run, hd]
        cases hrest : ready.2.run r rest with
        | mk pass later ending =>
          rw [hnext, hrest] at h
          cases h
          rw [List.cons_append, hnext, ih hrest, List.append_assoc]

/-- A successful reply with the headers of an earlier one before its own. -/
def Reply.precededBy (reply : Reply) (headers : List Header) : Reply :=
  if reply.success then { reply with headers := headers ++ reply.headers } else reply

namespace Reply
variable (reply : Reply) (headers : List Header)

theorem precededBy_nil : reply.precededBy [] = reply := ite_self _

theorem success_precededBy : (reply.precededBy headers).success = reply.success := by
  unfold precededBy
  split <;> rfl

theorem requestMore_precededBy : (reply.precededBy headers).requestMore = reply.requestMore := by
  unfold precededBy
  split <;> rfl

theorem headers_precededBy (h : reply.success = true) :
    (reply.precededBy headers).headers = headers ++ reply.headers := by
  rw [precededBy, if_pos h]

end Reply

theorem map_precededBy_nil (outcome : Except Retarget.Error Reply) :
    outcome.map (·.precededBy []) = outcome := by
  cases outcome with
  | error e => rfl
  | ok reply => exact congrArg Except.ok reply.precededBy_nil

namespace Session
variable {s t : Session} {a b : List Header} {first : Reply}

/-- A batch after one that left the session in its phase, in one message with it. -/
theorem process_append (h : s.process a true = (t, .ok first)) (hphase : t.phase = s.phase)
    (hb : b ≠ []) (full : Bool) :
    s.process (a ++ b) full =
      ((t.process b full).1, (t.process b full).2.map (·.precededBy first.headers)) := by
  have hab : a ++ b ≠ [] := List.append_ne_nil_of_right_ne_nil a hb
  cases step_of_process h with
  | ignored hi =>
    have hsame : s.process (a ++ b) full = s.process b full := by
      rcases hi with rfl | hfinal
      · rfl
      · rw [← phase_eq_final] at hfinal
        rw [process_of_ignored (.inr hfinal), process_of_ignored (.inr hfinal)]
    rw [Reply.failure, map_precededBy_nil, hsame]
  | measuring _ hs hr hw hf =>
    rw [map_precededBy_nil, process_of_presync hs hab, process_of_presync rfl hb,
      processPresync, Presync.run_append hr b]
    rfl
  | verifying _ hs hr hw hf =>
    rw [process_of_redownload hs hab, process_of_redownload rfl hb, processRedownload,
      processRedownload, Redownload.run_append hr b]
    dsimp only
    -- Both sides now look at the same walk through `b`.
    cases hrest : Redownload.run s.rules _ b with
    | mk pass later ending =>
      cases ending with
      | error e => rfl
      | ok abort =>
        cases abort with
        | some abort => rfl
        | none =>
          dsimp only
          split_ifs <;> rfl
  | presyncAborted hs hr => cases hphase.trans (phase_of_presync hs)
  | switched _ hs hr hw => cases hphase.trans (phase_of_presync hs)
  | presyncEnded _ hs hr hw hf => cases hphase.trans (phase_of_presync hs)
  | redownloadAborted hs hr => cases hphase.trans (phase_of_redownload hs)
  | completed _ hs hr hw => cases hphase.trans (phase_of_redownload hs)
  | redownloadEnded _ hs hr hw hf => cases hphase.trans (phase_of_redownload hs)

/-- A full batch that leaves the session in its phase, and then any other batch, do to the session
what the two of them do as one message. The replies agree, and the headers that the two calls
release are those that the one call releases. -/
theorem boundaries_irrelevant (h : s.process a true = (t, .ok first)) (hphase : t.phase = s.phase)
    (hb : b ≠ []) (full : Bool) :
    (s.process (a ++ b) full).1 = (t.process b full).1 ∧
      (∀ second, (t.process b full).2 = .ok second →
        ∃ whole, (s.process (a ++ b) full).2 = .ok whole ∧ whole.success = second.success ∧
          whole.requestMore = second.requestMore ∧
          (second.success = true → whole.headers = first.headers ++ second.headers)) ∧
      (∀ e, (t.process b full).2 = .error e → (s.process (a ++ b) full).2 = .error e) ∧
      (s.rules.params.window ≠ 0 → ∃ second, (t.process b full).2 = .ok second) := by
  rw [process_append h hphase hb full]
  refine ⟨rfl, ?_, ?_, ?_⟩
  · intro second hsecond
    rw [hsecond]
    exact ⟨_, rfl, second.success_precededBy _, second.requestMore_precededBy _,
      second.headers_precededBy _⟩
  · intro e he
    rw [he]
    rfl
  · intro hwindow
    have hrules : t.rules = s.rules := by
      rw [← s.rules_process a true, h]
    obtain ⟨_, second, hsecond⟩ := exists_process (hrules.symm ▸ hwindow) b full
    exact ⟨second, congrArg Prod.snd hsecond⟩

/-- Two linked headers, where the work of both is needed, above a start without history. -/
theorem boundaries_irrelevant_pair :
    let c : ChainStart :=
      { id := .zero, header := ⟨1, .zero, .zero, 0, ⟨0x200f0f0f⟩, 0⟩, height := 5, work := 0,
        medianTime := 0, history := [], locator := [] }
    let x : Header := ⟨1, .zero, .zero, 60, ⟨0x200f0f0f⟩, 0⟩
    let y : Header := ⟨1, x.id, .zero, 120, ⟨0x200f0f0f⟩, 0⟩
    let s := Session.start c (.wrap 34) Params.regtest { commitmentPeriod := 1 } 0 [] .zero
    let t := (s.process [x] true).1
    t.phase = s.phase ∧ (s.process [x, y] false).1 = (t.process [y] false).1 ∧
      ∃ first second whole, s.process [x] true = (t, .ok first) ∧
        (t.process [y] false).2 = .ok second ∧ (s.process [x, y] false).2 = .ok whole ∧
        whole.success = second.success ∧ whole.requestMore = second.requestMore ∧
        (second.success = true → whole.headers = first.headers ++ second.headers) := by
  intro c x y s t
  have hphase : t.phase = s.phase := by decide +kernel
  have hwindow : s.rules.params.window ≠ 0 := by decide
  obtain ⟨_, first, hfirst⟩ := exists_process hwindow [x] true
  have hcall : s.process [x] true = ((s.process [x] true).1, .ok first) := by rw [hfirst]
  obtain ⟨hsame, hreplies, -, hanswer⟩ :=
    boundaries_irrelevant hcall hphase (List.cons_ne_nil y []) false
  obtain ⟨second, hsecond⟩ := hanswer hwindow
  obtain ⟨whole, hwhole, hrest⟩ := hreplies second hsecond
  exact ⟨hphase, hsame, first, second, whole, hcall, hsecond, hwhole, hrest⟩

end Session
end HeaderSync
