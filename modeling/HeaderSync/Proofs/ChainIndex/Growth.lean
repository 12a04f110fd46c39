import HeaderSync.Proofs.ChainIndex.Lineage
import HeaderSync.Proofs.Linkage

/-!
# How an index grows

Insertions keep every answer about the entries that are there. A branch above an entry grows by
headers that are accepted on its tip one by one; whatever else is inserted in between, the tip's
ancestors are then the entries of these headers above those of the entry it started from.
-/

namespace HeaderSync.ChainIndex
attribute [local irreducible] Header.id Compact.work

variable {p : Params} {i j k : ChainIndex} {id : Digest} {h : Header} {hs : List Header}

/-- Whether `j` answers as `i` does about the entries of `i`. -/
def KeptBy (i j : ChainIndex) : Prop :=
  ∀ id, i.ancestors id ≠ [] → j.ancestors id = i.ancestors id

namespace KeptBy

theorem refl (i : ChainIndex) : i.KeptBy i := fun _ _ => rfl

theorem trans (hj : i.KeptBy j) (hk : j.KeptBy k) : i.KeptBy k := by
  intro id hknown
  have hsame := hj id hknown
  rw [hk id (hsame ▸ hknown), hsame]

theorem of_add {e : Entry} {older : List Entry} (hnew : i.ancestors e.id = []) :
    i.KeptBy (i.add e older) := by
  intro id hknown
  apply ancestors_add_of_ne
  intro hid
  apply hknown
  rw [← hid]
  exact hnew

theorem of_insert (hj : i.insert h = .ok j) : i.KeptBy j := by
  obtain ⟨parent, older, hnew, -, rfl⟩ := insert_eq hj
  exact .of_add hnew

theorem get?_eq {e : Entry} (hj : i.KeptBy j) (he : i.get? id = some e) : j.get? id = some e := by
  obtain ⟨older, ha⟩ := get?_eq_some.mp he
  rw [get?, hj id (by simp [ha])]
  exact he

theorem chainStart?_eq {count : Nat} {c : ChainStart} (hj : i.KeptBy j)
    (hc : i.chainStart? id count = some c) : j.chainStart? id count = some c := by
  have hknown : i.ancestors id ≠ [] := by
    intro hnil
    simp [chainStart?, get?, hnil] at hc
  rw [← hc]
  simp only [chainStart?, locator, get?, hj id hknown]

end KeptBy

theorem chainStart?_eq_some {count : Nat} {c : ChainStart} (hc : i.chainStart? id count = some c) :
    ∃ e, i.get? id = some e ∧ c.id = e.id ∧ c.header = e.header ∧ c.height = e.height ∧
      c.work = e.work ∧ c.history = (((i.ancestors id).take count).map Entry.stamp).reverse := by
  unfold chainStart? at hc
  cases he : i.get? id with
  | none => simp [he] at hc
  | some e =>
    rw [he] at hc
    cases hc
    exact ⟨e, rfl, rfl, rfl, rfl, rfl, rfl⟩

/-- A header is accepted if it passes every check against its parent, and is then inserted. -/
theorem accept_eq (hj : i.accept p h = .ok j) : ∃ parent, i.get? h.parent = some parent ∧
    parent.medianTime < h.seconds ∧ i.requiredAfter p h.parent h.seconds = .ok h.bits ∧
    h.checkProof p = .ok () ∧ i.insert h = .ok j := by
  unfold accept at hj
  cases hparent : i.get? h.parent with
  | none => simp [hparent, throw, throwThe, MonadExceptOf.throw] at hj
  | some parent =>
    simp only [hparent] at hj
    split_ifs at hj with htime
    · cases hj
    · cases hbits : i.requiredAfter p h.parent h.seconds with
      | error e => simp [hbits, bind, Except.bind] at hj
      | ok bits =>
        simp only [hbits, bind, Except.bind] at hj
        split_ifs at hj with hne
        cases hproof : h.checkProof p with
        | error e => simp [hproof, Except.mapError] at hj
        | ok u =>
          refine ⟨parent, rfl, Int.not_le.mp htime, ?_, rfl, ?_⟩
          · rw [not_not.mp hne]
          · simpa [hproof, Except.mapError] using hj

theorem required_of_accept (hj : i.accept p h = .ok j) :
    i.requiredAfter p h.parent h.seconds = .ok h.bits ∧ i.insert h = .ok j := by
  obtain ⟨parent, -, -, hbits, -, hinsert⟩ := accept_eq hj
  exact ⟨hbits, hinsert⟩

/-- How an index comes to hold the headers `hs` above the entry `id`, each of them accepted on the
one before. The proof of work and the time of a header may also have been left unchecked, and any
header may have been inserted aside. -/
inductive Extends (p : Params) (i : ChainIndex) (id : Digest) : List Header → ChainIndex → Prop
  | start : Extends p i id [] i
  | accepted {hs : List Header} {j k : ChainIndex} {h : Header} (hj : Extends p i id hs j)
      (link : h.parent = tipId id hs) (hk : j.accept p h = .ok k) : Extends p i id (hs ++ [h]) k
  | required {hs : List Header} {j k : ChainIndex} {h : Header} (hj : Extends p i id hs j)
      (link : h.parent = tipId id hs) (bits : j.requiredAfter p h.parent h.seconds = .ok h.bits)
      (hk : j.insert h = .ok k) : Extends p i id (hs ++ [h]) k
  | aside {hs : List Header} {j k : ChainIndex} {h : Header} (hj : Extends p i id hs j)
      (hk : j.insert h = .ok k) : Extends p i id hs k

namespace Extends

/-- An accepted header is one that was inserted with the required bits. -/
theorem induction {motive : ∀ hs j, i.Extends p id hs j → Prop} (start : motive [] i .start)
    (required : ∀ {hs j k h} (hj : i.Extends p id hs j) (link : h.parent = tipId id hs)
      (bits : j.requiredAfter p h.parent h.seconds = .ok h.bits) (hk : j.insert h = .ok k),
      motive hs j hj → motive (hs ++ [h]) k (.required hj link bits hk))
    (aside : ∀ {hs j k h} (hj : i.Extends p id hs j) (hk : j.insert h = .ok k),
      motive hs j hj → motive hs k (.aside hj hk))
    {hs : List Header} {j : ChainIndex} (hx : i.Extends p id hs j) : motive hs j hx := by
  induction hx with
  | start => exact start
  | accepted hj link hk ih =>
    obtain ⟨bits, hinsert⟩ := required_of_accept hk
    exact required hj link bits hinsert ih
  | required hj link bits hk ih => exact required hj link bits hk ih
  | aside hj hk ih => exact aside hj hk ih

theorem built (hi : i.Built) (hx : i.Extends p id hs j) : j.Built := by
  induction hx using Extends.induction with
  | start => exact hi
  | required _ _ _ hk ih => exact .header ih hk
  | aside _ hk ih => exact .header ih hk

/-- Each beginning of the branch was there at some time, and has been kept since. -/
theorem of_prefix {before : List Header} (hx : i.Extends p id hs j) (hb : before <+: hs) :
    ∃ k, i.Extends p id before k ∧ k.KeptBy j := by
  induction hx using Extends.induction with
  | start =>
    obtain rfl := List.prefix_nil.mp hb
    exact ⟨i, .start, .refl i⟩
  | @required hs j k h hj link bits hk ih =>
    rcases List.prefix_concat_iff.mp hb with rfl | hb
    · exact ⟨k, .required hj link bits hk, .refl k⟩
    · obtain ⟨l, hl, hkept⟩ := ih hb
      exact ⟨l, hl, hkept.trans (.of_insert hk)⟩
  | aside hj hk ih =>
    obtain ⟨l, hl, hkept⟩ := ih hb
    exact ⟨l, hl, hkept.trans (.of_insert hk)⟩

theorem keptBy (hx : i.Extends p id hs j) : i.KeptBy j := by
  induction hx using Extends.induction with
  | start => exact .refl i
  | required _ _ _ hk ih => exact ih.trans (.of_insert hk)
  | aside _ hk ih => exact ih.trans (.of_insert hk)

/-- The entry of the last header, and what its ancestors are. -/
theorem exists_tip {e : Entry} (hx : i.Extends p id hs j) (he : i.get? id = some e) :
    ∃ tip older, j.ancestors (tipId id hs) = tip :: older ∧
      (tip :: older).map Entry.header = hs.reverse ++ (i.ancestors id).map Entry.header ∧
      tip.height = e.height + hs.length ∧ tip.work = totalWork e.work hs := by
  induction hx using Extends.induction with
  | start =>
    obtain ⟨older, ha⟩ := get?_eq_some.mp he
    exact ⟨e, older, ha, by rw [ha]; rfl, rfl, rfl⟩
  | @required hs j k h hj link bits hk ih =>
    obtain ⟨tip, older, ha, hheaders, hheight, hwork⟩ := ih
    obtain ⟨parent, rest, -, hparent, rfl⟩ := insert_eq hk
    rw [link, ha] at hparent
    cases hparent
    refine ⟨.child h tip older, tip :: older, ?_, ?_, ?_, ?_⟩
    · rw [tipId_append, ancestors_add]
      exact if_pos rfl
    · rw [List.map_cons, hheaders, List.reverse_append]
      rfl
    · rw [List.length_append, ← Nat.add_assoc, ← hheight]
      rfl
    · rw [totalWork_append, ← hwork]
      rfl
  | aside hj hk ih =>
    obtain ⟨tip, older, ha, hrest⟩ := ih
    have hsame := KeptBy.of_insert hk (tipId id _) (by rw [ha]; nofun)
    exact ⟨tip, older, hsame.trans ha, hrest⟩

end Extends
end HeaderSync.ChainIndex
