import HeaderSync.Proofs.Session.Cursor
import HeaderSync.Proofs.Session.StoredBits
import HeaderSync.Session.Presync

/-!
# What the first pass holds

The state of the first pass is a function of the headers that it accepted: its cursor has followed
them and its queue holds their bits. `Tracks` says so, one accepted header preserves it, and hence
a batch does, up to the header that ends it.
-/

namespace HeaderSync.Presync
attribute [local irreducible] Header.id Compact.work commitmentBit Window.accept

def accepted (r : Rules) (p : Presync) : List Header → List Header
  | [] => []
  | h :: rest =>
    match p.step r h with
    | .ok (p', none) => h :: accepted r p' rest
    | _ => []

/-- The pass after the headers `hs`, counted from the start `s`. -/
structure Tracks (r : Rules) (s : ChainStart) (hs : List Header) (p : Presync) : Prop where
  admitted : (Cursor.start r.params s).Admits r.params hs
  cursor_eq : p.cursor = (Cursor.start r.params s).follow r.params hs
  toList_eq : p.commitments.toList = r.storedBits s.height hs s.height

variable {r : Rules} {s : ChainStart} {hs : List Header} {p p' : Presync} {h : Header}

/-- A header that is judged is refused, which changes nothing, or stored. -/
theorem step_cases {cause : Option AbortCause} (hp : p.step r h = .ok (p', cause)) :
    (∃ c, p.cursor.refusal? r.params h = .ok (some c) ∧ p' = p ∧ cause = some c) ∨
      p.cursor.refusal? r.params h = .ok none ∧ p.store r h = (p', cause) := by
  unfold step at hp
  cases hr : p.cursor.refusal? r.params h with
  | error e => simp [hr, bind, Except.bind] at hp
  | ok refusal =>
    cases refusal with
    | some c =>
      obtain ⟨rfl, rfl⟩ : p = p' ∧ some c = cause := by
        simpa [hr, bind, Except.bind, pure, Except.pure] using hp
      exact .inl ⟨c, rfl, rfl, rfl⟩
    | none =>
      exact .inr ⟨rfl, by simpa [hr, bind, Except.bind, pure, Except.pure] using hp⟩

/-- An accepted header moves the cursor, and leaves its bit if its height is committed to. -/
theorem of_step (hp : p.step r h = .ok (p', none)) :
    p.cursor.refusal? r.params h = .ok none ∧ p'.cursor = p.cursor.advance r.params h ∧
      p'.commitments.toList = p.commitments.toList ++
        if r.commitsAt (p.cursor.height + 1) then [r.commitment h.id] else [] := by
  obtain ⟨c, -, -, hc⟩ | ⟨hr, hs⟩ := step_cases hp
  · cases hc
  refine ⟨hr, ?_⟩
  unfold store at hs
  split_ifs at hs with hc hm
  · obtain rfl := (Prod.mk.inj hs).1
    simp [show r.commitsAt (p.cursor.height + 1) = false by simpa using hc]
  · simp at hs
  · obtain rfl := (Prod.mk.inj hs).1
    simp [show r.commitsAt (p.cursor.height + 1) = true by simpa using hc]

theorem tracks_start (r : Rules) (s : ChainStart) : (start r s).Tracks r s [] :=
  ⟨trivial, rfl, rfl⟩

namespace Tracks

theorem height_eq (ht : p.Tracks r s hs) : p.cursor.height = s.height + hs.length := by
  rw [ht.cursor_eq, Cursor.height_follow]
  rfl

theorem work_eq (ht : p.Tracks r s hs) : p.cursor.work = totalWork s.work hs := by
  rw [ht.cursor_eq, Cursor.work_follow]
  rfl

theorem step (ht : p.Tracks r s hs) (hp : p.step r h = .ok (p', none)) :
    p'.Tracks r s (hs ++ [h]) := by
  obtain ⟨hr, hc, hb⟩ := of_step hp
  refine ⟨?_, ?_, ?_⟩
  · rw [Cursor.admits_append, Cursor.admits_singleton, ← ht.cursor_eq]
    exact ⟨ht.admitted, hr⟩
  · rw [Cursor.follow_append, ← ht.cursor_eq]
    exact hc
  · rw [hb, ht.toList_eq, ht.height_eq, r.storedBits_append_singleton]

/-- A batch without an abort is accepted as a whole; any other one up to some header. -/
theorem run (ht : p.Tracks r s hs) (batch : List Header) :
    ∃ p', p'.Tracks r s (hs ++ p.accepted r batch) ∧
      ((p.run r batch).2 = .ok none → p.accepted r batch = batch ∧ (p.run r batch).1 = p') := by
  induction batch generalizing p hs with
  | nil => exact ⟨p, by simpa [accepted] using ht, fun _ => ⟨rfl, rfl⟩⟩
  | cons h rest ih =>
    cases hp : p.step r h with
    | error e => exact ⟨p, by simpa [accepted, hp] using ht, by simp [Presync.run, hp]⟩
    | ok outcome =>
      obtain ⟨q, cause⟩ := outcome
      cases cause with
      | some cause => exact ⟨p, by simpa [accepted, hp] using ht, by simp [Presync.run, hp]⟩
      | none =>
        obtain ⟨p', hp', hrun⟩ := ih (ht.step hp)
        refine ⟨p', by simpa [accepted, hp] using hp', fun hok => ?_⟩
        have hrest := hrun (by simpa [Presync.run, hp] using hok)
        simpa [accepted, Presync.run, hp] using hrest

theorem of_run (ht : p.Tracks r s hs) {batch : List Header}
    (hr : p.run r batch = (p', .ok none)) :
    p.accepted r batch = batch ∧ p'.Tracks r s (hs ++ batch) := by
  obtain ⟨q, hq, hok⟩ := ht.run batch
  rw [hr] at hok
  obtain ⟨hacc, rfl⟩ := hok rfl
  rw [hacc] at hq
  exact ⟨hacc, hq⟩

end Tracks
end HeaderSync.Presync
