import HeaderSync.Proofs.Session.FirstPass
import HeaderSync.Session.Redownload

/-!
# What the second pass holds

The second pass keeps three things in step with the headers that it accepted: the buffer, which
relinked gives back the headers that are not released yet, the queue, which holds the bits of the
first pass above the height reached, and the cursor. `Tracks` is that invariant; a header together
with the release that follows it preserves it.
-/

namespace HeaderSync.Redownload
attribute [local irreducible] Header.id Compact.work commitmentBit Window.accept

def accepted (r : Rules) (d : Redownload) : List Header → List Header
  | [] => []
  | h :: rest =>
    match d.step r h with
    | .ok (d', none) => h :: accepted r (d'.release (d'.releasable r)).2 rest
    | _ => []

/-- Accepted headers that may follow each other from the start `s`. Those at commitment heights
below the required work have the bit of the header that the first pass saw at the same height. -/
structure Vouched (r : Rules) (s : ChainStart) (measured accepted : List Header) : Prop where
  admitted : (Cursor.start r.params s).Admits r.params accepted
  matched : ∀ i (hi : i < accepted.length), r.commitsAt (s.height + i + 1) = true →
    totalWork s.work (accepted.take (i + 1)) < r.minWork →
    ∃ h, measured[i]? = some h ∧ r.commitment accepted[i].id = r.commitment h.id

/-- The second pass after the headers `accepted`, of which `released` have left the buffer, where
the first pass had accepted the headers `measured`. -/
structure Tracks (r : Rules) (s : ChainStart) (measured accepted released : List Header)
    (d : Redownload) : Prop extends Vouched r s measured accepted where
  cursor_eq : d.cursor = (Cursor.start r.params s).follow r.params accepted
  relinked : released ++ relink d.base d.buffer.toList = accepted
  base_eq : d.base = tipId s.id released
  size_eq : d.buffer.size = if d.isReleasing r then 0 else min accepted.length r.bufferSize
  toList_eq : accepted = [] ∨ d.isReleasing r = false →
    d.commitments.toList = r.storedBits s.height measured (s.height + accepted.length)
  presyncHeight_eq : d.presyncHeight = s.height + measured.length
  presyncWork_eq : d.presyncWork = totalWork s.work measured

variable {r : Rules} {s : ChainStart} {measured released hs : List Header} {d d' : Redownload}
  {h : Header}

theorem vouched_nil (r : Rules) (s : ChainStart) (measured : List Header) :
    Vouched r s measured [] := ⟨trivial, fun i hi => absurd hi (Nat.not_lt_zero i)⟩

/-- A header that is judged is refused, which changes nothing, or stored. -/
theorem step_cases {cause : Option AbortCause} (hd : d.step r h = .ok (d', cause)) :
    (∃ c, d.cursor.refusal? r.params h = .ok (some c) ∧ d' = d ∧ cause = some c) ∨
      d.cursor.refusal? r.params h = .ok none ∧ d.store r h = (d', cause) := by
  unfold step at hd
  cases hr : d.cursor.refusal? r.params h with
  | error e => simp [hr, bind, Except.bind] at hd
  | ok refusal =>
    cases refusal with
    | some c =>
      obtain ⟨rfl, rfl⟩ : d = d' ∧ some c = cause := by
        simpa [hr, bind, Except.bind, pure, Except.pure] using hd
      exact .inl ⟨c, rfl, rfl, rfl⟩
    | none =>
      exact .inr ⟨rfl, by simpa [hr, bind, Except.bind, pure, Except.pure] using hd⟩

/-- An accepted header moves the cursor and joins the buffer. Unless the work is there with it, a
header at a commitment height takes its own bit from the queue. -/
theorem of_step (hd : d.step r h = .ok (d', none)) :
    d.cursor.refusal? r.params h = .ok none ∧ d'.cursor = d.cursor.advance r.params h ∧
      d'.buffer.toList = d.buffer.toList ++ [h.compress] ∧ d'.base = d.base ∧
      d'.presyncHeight = d.presyncHeight ∧ d'.presyncWork = d.presyncWork ∧
      (d'.isReleasing r = false → d.commitments.toList =
        (if r.commitsAt (d.cursor.height + 1) then [r.commitment h.id] else []) ++
          d'.commitments.toList) := by
  obtain ⟨c, -, -, hc⟩ | ⟨hr, hs⟩ := step_cases hd
  · cases hc
  refine ⟨hr, ?_⟩
  unfold store at hs
  split_ifs at hs with hc
  · obtain rfl := (Prod.mk.inj hs).1
    refine ⟨rfl, Queue.toList_push _ _, rfl, rfl, rfl, fun hw => ?_⟩
    have hw' : (d.weigh h).isReleasing r = false := hw
    have hcommit : r.commitsAt (d.cursor.height + 1) = false := by simpa [hw'] using hc
    simp [hcommit, hold]
  · cases hq : d.commitments.pop? with
    | none => simp [hq] at hs
    | some popped =>
      obtain ⟨bit, rest⟩ := popped
      by_cases hb : r.commitment h.id = bit
      · obtain rfl : ({ d with commitments := rest }).hold r h = d' := by
          simpa [hq, hb] using hs
        refine ⟨rfl, Queue.toList_push _ _, rfl, rfl, rfl, fun _ => ?_⟩
        have hcommit : r.commitsAt (d.cursor.height + 1) = true := by
          simp only [Bool.or_eq_true, Bool.not_eq_true', not_or] at hc
          simpa using hc.2
        rw [Queue.toList_of_pop? hq, if_pos hcommit, hb]
        rfl
      · simp [hq, hb] at hs

/-- Releasing takes the oldest headers out of the buffer, relinked, and moves the base up. -/
theorem release_eq (d : Redownload) (count : Nat) :
    ∃ rest : Queue CompressedHeader, rest.toList = d.buffer.toList.drop count ∧
      d.release count = (relink d.base (d.buffer.toList.take count),
        { d with buffer := rest
                 base := tipId d.base (relink d.base (d.buffer.toList.take count)) }) := by
  induction count generalizing d with
  | zero => exact ⟨d.buffer, rfl, rfl⟩
  | succ count ih =>
    cases hq : d.buffer.pop? with
    | none =>
      have hnil := Queue.pop?_eq_none hq
      exact ⟨d.buffer, by simp [hnil], by simp [release, hq, hnil, relink, tipId]⟩
    | some popped =>
      obtain ⟨c, rest⟩ := popped
      obtain ⟨last, hlast, hrest⟩ := ih { d with buffer := rest, base := (c.restore d.base).id }
      refine ⟨last, ?_, ?_⟩
      · rw [hlast, Queue.toList_of_pop? hq, List.drop_succ_cons]
      · rw [Queue.toList_of_pop? hq, List.take_succ_cons]
        simp only [release, hq, hrest, relink, tipId]

/-- Work that was enough before a header is enough with it. -/
theorem isReleasing_of_step (hd : d.step r h = .ok (d', none)) (hr : d'.isReleasing r = false) :
    d.isReleasing r = false := by
  have hc := (of_step hd).2.1
  simp only [isReleasing, decide_eq_false_iff_not, hc, Cursor.advance] at hr ⊢
  exact fun hw => hr (Nat.le_trans hw (le_totalWork d.cursor.work [h]))

namespace Tracks

theorem height_eq (ht : d.Tracks r s measured hs released) :
    d.cursor.height = s.height + hs.length := by
  rw [ht.cursor_eq, Cursor.height_follow]
  rfl

theorem id_eq (ht : d.Tracks r s measured hs released) : d.cursor.id = tipId s.id hs := by
  rw [ht.cursor_eq, Cursor.id_follow]
  rfl

theorem isReleasing_iff (ht : d.Tracks r s measured hs released) :
    d.isReleasing r = true ↔ r.minWork ≤ totalWork s.work hs := by
  unfold isReleasing
  rw [ht.cursor_eq, Cursor.work_follow, decide_eq_true_iff]
  rfl

theorem released_prefix (ht : d.Tracks r s measured hs released) : released <+: hs :=
  ⟨_, ht.relinked⟩

/-- Nothing is held back once the work is there, so that alone completes the pass. -/
theorem isComplete_iff (ht : d.Tracks r s measured hs released) :
    (d.buffer.isEmpty && d.isReleasing r) = true ↔ r.minWork ≤ totalWork s.work hs := by
  rw [Bool.and_eq_true, ← ht.isReleasing_iff]
  refine ⟨And.right, fun hrel => ⟨?_, hrel⟩⟩
  have hsize := ht.size_eq
  rw [if_pos hrel] at hsize
  exact decide_eq_true hsize

theorem length_released (ht : d.Tracks r s measured hs released) :
    released.length + d.buffer.size = hs.length := by
  have hl := congrArg List.length ht.relinked
  simpa using hl

/-- What the buffer holds after one more header continues the accepted headers. -/
theorem relinked_step (ht : d.Tracks r s measured hs released)
    (hd : d.step r h = .ok (d', none)) :
    released ++ relink d'.base d'.buffer.toList = hs ++ [h] := by
  obtain ⟨hr, -, hb, hbase, -⟩ := of_step hd
  have htip : tipId d.base (relink d.base d.buffer.toList) = h.parent := by
    rw [Cursor.parent_eq_of_refusal? hr, ht.id_eq, ← ht.relinked, tipId_append, ht.base_eq]
  rw [hb, hbase, relink_append, htip, ← List.append_assoc, ht.relinked]
  simp [relink]

/-- The next header's bit was left by the first pass at the same height. -/
theorem matched_step (ht : d.Tracks r s measured hs released) (hd : d.step r h = .ok (d', none))
    (hc : r.commitsAt (s.height + hs.length + 1) = true) (hw : d'.isReleasing r = false) :
    ∃ m, measured[hs.length]? = some m ∧ r.commitment h.id = r.commitment m.id := by
  obtain ⟨-, -, -, -, -, -, hq⟩ := of_step hd
  have hbits := hq hw
  rw [ht.toList_eq (.inr (isReleasing_of_step hd hw)), ht.height_eq, if_pos hc,
    r.storedBits_succ, if_pos hc] at hbits
  cases hm : measured[hs.length]? with
  | none =>
    have hlen : measured.length ≤ hs.length := List.getElem?_eq_none_iff.mp hm
    rw [hm, r.storedBits_of_length_le (by omega)] at hbits
    simp at hbits
  | some m =>
    rw [hm] at hbits
    exact ⟨m, rfl, (List.cons.inj hbits).1.symm⟩

theorem vouched_step (ht : d.Tracks r s measured hs released) (hd : d.step r h = .ok (d', none)) :
    Vouched r s measured (hs ++ [h]) := by
  obtain ⟨hr, hcur, -⟩ := of_step hd
  refine ⟨?_, fun i hi hc hw => ?_⟩
  · rw [Cursor.admits_append, Cursor.admits_singleton, ← ht.cursor_eq]
    exact ⟨ht.admitted, hr⟩
  · rw [List.length_append, List.length_singleton] at hi
    by_cases hlt : i < hs.length
    · rw [List.take_append_of_le_length (by omega)] at hw
      obtain ⟨m, hm, hbit⟩ := ht.matched i hlt hc hw
      exact ⟨m, hm, by rw [List.getElem_append_left hlt]; exact hbit⟩
    · obtain rfl : i = hs.length := by omega
      rw [List.take_of_length_le (by simp)] at hw
      have hrel : d'.isReleasing r = false := by
        rw [isReleasing, hcur, decide_eq_false_iff_not, ← Cursor.follow_singleton, ht.cursor_eq,
          ← Cursor.follow_append, Cursor.work_follow]
        exact Nat.not_le_of_lt hw
      obtain ⟨m, hm, hbit⟩ := ht.matched_step hd hc hrel
      exact ⟨m, hm, by rw [List.getElem_concat_length rfl]; exact hbit⟩

theorem size_step (ht : d.Tracks r s measured hs released) (hd : d.step r h = .ok (d', none)) :
    d'.buffer.size - d'.releasable r =
      if d'.isReleasing r then 0 else min (hs ++ [h]).length r.bufferSize := by
  have hsize : d'.buffer.size = d.buffer.size + 1 := by
    rw [← Queue.length_toList, (of_step hd).2.2.1, List.length_append, Queue.length_toList]
    rfl
  unfold releasable
  cases hw : d'.isReleasing r with
  | true => simp
  | false =>
    have hold := ht.size_eq
    rw [isReleasing_of_step hd hw] at hold
    simp only [Bool.false_eq_true, if_false, List.length_append, List.length_singleton] at hold ⊢
    omega

/-- One accepted header and the release that follows it. -/
theorem step (ht : d.Tracks r s measured hs released) (hd : d.step r h = .ok (d', none)) :
    (d'.release (d'.releasable r)).2.Tracks r s measured (hs ++ [h])
      (released ++ (d'.release (d'.releasable r)).1) := by
  obtain ⟨-, hcur, -, hbase, hph, hpw, hq⟩ := of_step hd
  obtain ⟨rest, hrest, hrel⟩ := d'.release_eq (d'.releasable r)
  have hsplit := List.take_append_drop (d'.releasable r) d'.buffer.toList
  rw [hrel]
  refine { ht.vouched_step hd with
    cursor_eq := ?_, relinked := ?_, base_eq := ?_, size_eq := ?_, toList_eq := ?_,
    presyncHeight_eq := ?_, presyncWork_eq := ?_ }
  · rw [Cursor.follow_append, ← ht.cursor_eq]
    exact hcur
  · rw [← ht.relinked_step hd, List.append_assoc, hrest, ← relink_append, hsplit]
  · rw [tipId_append, ← ht.base_eq, hbase]
  · have hsize : rest.size = d'.buffer.size - d'.releasable r := by
      rw [← Queue.length_toList, hrest, List.length_drop, Queue.length_toList]
    exact hsize.trans (ht.size_step hd)
  · intro hw
    have hw' : d'.isReleasing r = false := hw.resolve_left (by simp)
    have hbits := hq hw'
    rw [ht.toList_eq (.inr (isReleasing_of_step hd hw')), ht.height_eq, r.storedBits_succ] at hbits
    rw [List.length_append, List.length_singleton, ← Nat.add_assoc]
    split_ifs at hbits with hc
    · obtain ⟨m, hm, -⟩ := ht.matched_step hd hc hw'
      rw [hm] at hbits
      exact (List.cons.inj hbits).2.symm
    · exact hbits.symm
  · exact hph.trans ht.presyncHeight_eq
  · exact hpw.trans ht.presyncWork_eq

/-- A batch without an abort is accepted as a whole; any other one up to some header. -/
theorem run (ht : d.Tracks r s measured hs released) (batch : List Header) :
    ∃ d' more, d'.Tracks r s measured (hs ++ d.accepted r batch) (released ++ more) ∧
      ((d.run r batch).ending = .ok none →
        d.accepted r batch = batch ∧ (d.run r batch).pass = d' ∧
          (d.run r batch).released = more) := by
  induction batch generalizing d hs released with
  | nil => exact ⟨d, [], by simpa [accepted] using ht, fun _ => ⟨rfl, rfl, rfl⟩⟩
  | cons h rest ih =>
    cases hd : d.step r h with
    | error e => exact ⟨d, [], by simpa [accepted, hd] using ht, by simp [Redownload.run, hd]⟩
    | ok outcome =>
      obtain ⟨next, cause⟩ := outcome
      cases cause with
      | some cause =>
        exact ⟨d, [], by simpa [accepted, hd] using ht, by simp [Redownload.run, hd]⟩
      | none =>
        obtain ⟨d', more, hd', hrun⟩ := ih (ht.step hd)
        refine ⟨d', (next.release (next.releasable r)).1 ++ more,
          by simpa [accepted, hd] using hd', fun hok => ?_⟩
        have hrest := hrun (by simpa [Redownload.run, hd] using hok)
        simpa [accepted, Redownload.run, hd] using hrest

end Tracks

/-- The second pass begins with all bits of the first, and nothing accepted. -/
theorem tracks_start {p : Presync} (hp : p.Tracks r s measured) :
    (start r s p).Tracks r s measured [] [] where
  toVouched := vouched_nil r s measured
  cursor_eq := rfl
  relinked := rfl
  base_eq := rfl
  size_eq := by simp [start, Queue.empty]
  toList_eq _ := hp.toList_eq
  presyncHeight_eq := hp.height_eq
  presyncWork_eq := hp.work_eq

end HeaderSync.Redownload
