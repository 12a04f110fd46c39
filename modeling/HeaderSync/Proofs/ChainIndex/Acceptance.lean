import HeaderSync.Proofs.ChainIndex.InsertionOrder
import HeaderSync.Proofs.Compact.Work

/-!
# What acceptance leaves behind

An index that grew by acceptance alone answers for each of its headers: whatever was accepted or
refused since, the header still passes the checks that it was accepted by. Its target is then usable,
so its entry has more work than its parent's.
-/

namespace HeaderSync

attribute [local irreducible] Header.id Compact.work

theorem isValid_of_checkProof {p : Params} {hash : Digest} {bits : Compact}
    (h : checkProof p hash bits = .ok ()) : bits.isValid = true ∧ bits.target ≤ p.powLimit := by
  unfold checkProof at h
  split_ifs at h with hinvalid habove
  exact ⟨by simpa using hinvalid, Nat.le_of_not_lt habove⟩

theorem Lineage.work_child {e parent : Entry} {older : List Entry}
    (hl : Lineage (e :: parent :: older)) :
    e.work = parent.work.satAdd e.header.bits.work := by
  cases hl with
  | child h link rest => rfl

namespace ChainIndex
variable {p : Params} {i j : ChainIndex} {g h : Header} {e parent : Entry}

/-- The checks that stand between an entry and its parent, as the index answers them now. -/
structure Checked (p : Params) (i : ChainIndex) (parent e : Entry) : Prop where
  parent?_eq : i.parent? e.id = some parent
  link : e.header.parent = parent.id
  later : parent.medianTime < e.header.seconds
  required : i.requiredAfter p parent.id e.header.seconds = .ok e.header.bits
  proof : e.header.checkProof p = .ok ()

theorem KeptBy.requiredAfter_eq {id : Digest} {time : Int} {bits : Compact} (hj : i.KeptBy j)
    (h : i.requiredAfter p id time = .ok bits) : j.requiredAfter p id time = .ok bits := by
  have hknown : i.ancestors id ≠ [] := by
    intro hnil
    simp [requiredAfter, get?, hnil] at h
  have hsame : i.AgreeOn j id := .of_ancestors (hj id hknown).symm
  rw [← hsame.requiredAfter_eq]
  exact h

namespace Checked

/-- Insertions change no answer that the checks depend on. -/
theorem of_keptBy (he : Checked p i parent e) (hj : i.KeptBy j) : Checked p j parent e := by
  have hparent := he.parent?_eq
  have hknown : i.ancestors e.id ≠ [] := by
    intro hnil
    simp [parent?, hnil] at hparent
  have hsame : i.AgreeOn j e.id := .of_ancestors (hj _ hknown).symm
  exact ⟨hsame.parent?_eq ▸ hparent, he.link, he.later, hj.requiredAfter_eq he.required, he.proof⟩

theorem isValid (he : Checked p i parent e) :
    e.header.bits.isValid = true ∧ e.header.bits.target ≤ p.powLimit :=
  isValid_of_checkProof he.proof

/-- Work grows from parent to child until it saturates. -/
theorem work_lt (hi : i.WellFormed) (hknown : i.get? e.id = some e) (he : Checked p i parent e) :
    parent.work < e.work ∨ parent.work = .greatest ∧ e.work = .greatest := by
  obtain ⟨older, ha⟩ := get?_eq_some.mp hknown
  have hparent := he.parent?_eq
  rw [parent?, ha, List.tail_cons] at hparent
  obtain ⟨older, rfl⟩ := List.head?_eq_some_iff.mp hparent
  have hwork : e.work.toNat = min (parent.work.toNat + e.header.bits.work.toNat)
      UInt256.greatest.toNat := congrArg UInt256.toNat (hi.lineage ha).2.work_child
  have hpos := Compact.work_pos he.isValid.1
  have hle : parent.work.toNat ≤ UInt256.greatest.toNat := parent.work.toNat_le
  rcases Nat.eq_or_lt_of_le hle with heq | hlt
  · right
    exact ⟨UInt256.ext heq, UInt256.ext (by omega)⟩
  · left
    rw [UInt256.lt_iff]
    omega

end Checked

/-- The entry that an accepted header gets is a checked one. -/
theorem checked_of_accept (hi : i.WellFormed) (hj : i.accept p h = .ok j) :
    ∃ parent e, j.entries = i.entries.push e ∧ Checked p j parent e := by
  obtain ⟨parent, hparent, hlater, hbits, hproof, hinsert⟩ := accept_eq hj
  have hrequired := (KeptBy.of_insert hinsert).requiredAfter_eq hbits
  obtain ⟨first, older, -, ha, rfl⟩ := insert_eq hinsert
  rw [get?, ha] at hparent
  cases hparent
  have hid : parent.id = h.parent := (hi.lineage ha).1
  refine ⟨parent, .child h parent older, rfl, ?_, hid.symm, hlater, hid ▸ hrequired, hproof⟩
  rw [parent?, ancestors_add, if_pos rfl]
  rfl

def AllChecked (p : Params) (g : Header) (i : ChainIndex) : Prop :=
  ∀ e ∈ i.entries, e = .genesis g ∨ ∃ parent, Checked p i parent e

theorem AllChecked.accept (hi : i.WellFormed) (hall : AllChecked p g i)
    (hj : i.accept p h = .ok j) : AllChecked p g j := by
  have hkept := KeptBy.of_insert (required_of_accept hj).2
  obtain ⟨parent, new, hentries, hnew⟩ := checked_of_accept hi hj
  intro e he
  rw [hentries] at he
  rcases Array.mem_push.mp he with he | rfl
  · obtain hfirst | ⟨parent, hchecked⟩ := hall e he
    · exact .inl hfirst
    · exact .inr ⟨parent, hchecked.of_keptBy hkept⟩
  · exact .inr ⟨parent, hnew⟩

theorem AllChecked.performAll (hi : i.Built) (hall : AllChecked p g i) (hs : List Header) :
    AllChecked p g (i.performAll (hs.map (.accept p))) := by
  induction hs generalizing i with
  | nil => exact hall
  | cons h hs ih =>
    change AllChecked p g ((i.perform (.accept p h)).performAll (hs.map (.accept p)))
    cases hj : i.accept p h with
    | error error =>
      have hsame : i.perform (.accept p h) = i := by
        rw [perform, Call.result, hj]
      rw [hsame]
      exact ih hi hall
    | ok j =>
      have hnext : i.perform (.accept p h) = j := by
        rw [perform, Call.result, hj]
      rw [hnext]
      exact ih (.header hi (required_of_accept hj).2) (hall.accept hi.wellFormed hj)

theorem allChecked_genesis (p : Params) (g : Header) :
    AllChecked p g (empty.perform (.genesis g)) := by
  intro e he
  left
  rw [perform, Call.result] at he
  cases hj : empty.insertGenesis g with
  | error error =>
    rw [hj] at he
    exact absurd he (Array.not_mem_empty e)
  | ok j =>
    rw [hj] at he
    obtain ⟨-, -, rfl⟩ := insertGenesis_eq hj
    rcases Array.mem_push.mp he with he | rfl
    · exact absurd he (Array.not_mem_empty e)
    · rfl

/-- After a first block and any headers offered for acceptance, taken or refused, every other entry
passes in the final index the checks that a header has to pass below its parent. Its target is valid
and within the limit, and its work exceeds its parent's, which only saturation can prevent. -/
theorem accepted_tree_valid (p : Params) (g : Header) (hs : List Header) :
    let i := empty.performAll (.genesis g :: hs.map (.accept p))
    ∀ e ∈ i.entries, e ≠ .genesis g → ∃ parent, i.get? parent.id = some parent ∧
      Checked p i parent e ∧ e.header.bits.isValid = true ∧
      e.header.bits.target ≤ p.powLimit ∧
      (parent.work < e.work ∨ parent.work = .greatest ∧ e.work = .greatest) := by
  intro i e he hne
  have hbuilt : i.Built := Built.empty.performAll _
  have hall : AllChecked p g i := (allChecked_genesis p g).performAll
    (Built.empty.performAll [.genesis g]) hs
  obtain hfirst | ⟨parent, hchecked⟩ := hall e he
  · exact absurd hfirst hne
  · have hknown := hbuilt.stored.known e he
    obtain ⟨hvalid, hlimit⟩ := hchecked.isValid
    have hparent : parent ∈ i.ancestors e.id :=
      List.mem_of_mem_tail (List.mem_of_mem_head? hchecked.parent?_eq)
    exact ⟨parent, hbuilt.stored.known parent (hbuilt.stored.mem_entries e.id parent hparent),
      hchecked, hvalid, hlimit, hchecked.work_lt hbuilt.wellFormed hknown⟩

end ChainIndex
end HeaderSync
