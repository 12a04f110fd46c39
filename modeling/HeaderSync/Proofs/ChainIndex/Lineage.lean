import HeaderSync.ChainIndex
import HeaderSync.Proofs.Header.Identity
import Mathlib.Data.List.Chain

/-!
# The ancestors of an indexed header

A lineage is an entry with all its ancestors down to a genesis entry, newest first, where each
entry is the one that an insertion below its parent makes. Every ancestor list of an index that
insertions built is a lineage, and the ancestors of a parent are the rest of those of its child.
-/

namespace HeaderSync

attribute [local irreducible] Header.id Compact.work

inductive Lineage : List Entry → Prop
  | genesis (h : Header) (zero : h.parent.isZero) : Lineage [Entry.genesis h]
  | child (h : Header) {parent : Entry} {older : List Entry} (link : h.parent = parent.id)
      (rest : Lineage (parent :: older)) : Lineage (Entry.child h parent older :: parent :: older)

namespace Lineage

theorem ne_nil {l : List Entry} (hl : Lineage l) : l ≠ [] := by
  cases hl <;> simp

theorem of_append {newer older : List Entry} (hl : Lineage (newer ++ older)) (ho : older ≠ []) :
    Lineage older := by
  induction newer with
  | nil => exact hl
  | cons e newer ih =>
    refine ih ?_
    rw [List.cons_append] at hl
    generalize hr : newer ++ older = rest at hl
    cases hl with
    | genesis h zero => exact absurd (List.append_eq_nil_iff.mp hr).2 ho
    | child h link rest => exact hr ▸ rest

theorem id_eq {e : Entry} {older : List Entry} (hl : Lineage (e :: older)) :
    e.id = e.header.id := by
  cases hl <;> rfl

theorem length_eq {l : List Entry} (hl : Lineage l) : l.length = (l.head hl.ne_nil).height + 1 := by
  induction hl with
  | genesis h zero => rfl
  | child h link rest ih => exact congrArg Nat.succ ih

theorem height_eq {e first : Entry} {between rest : List Entry}
    (hl : Lineage (e :: between ++ first :: rest)) :
    e.height = first.height + between.length + 1 := by
  have hlength : (e :: between ++ first :: rest).length = e.height + 1 := hl.length_eq
  have hrest : (first :: rest).length = first.height + 1 :=
    (hl.of_append (List.cons_ne_nil _ _)).length_eq
  rw [List.length_append, List.length_cons] at hlength
  omega

theorem isChain_height {l : List Entry} (hl : Lineage l) :
    l.IsChain fun e parent => e.height = parent.height + 1 := by
  induction hl with
  | genesis h zero => exact .singleton _
  | child h link rest ih => exact List.isChain_cons_cons.mpr ⟨rfl, ih⟩

end Lineage

namespace ChainIndex

/-- The indexes that insertions lead to. A refused insertion leaves the index as it was. -/
inductive Built : ChainIndex → Prop
  | empty : Built .empty
  | genesis {i j : ChainIndex} {h : Header} (hi : Built i) (hj : i.insertGenesis h = .ok j) :
      Built j
  | header {i j : ChainIndex} {h : Header} (hi : Built i) (hj : i.insert h = .ok j) : Built j

structure WellFormed (i : ChainIndex) : Prop where
  unknown_of_isEmpty : i.isEmpty → ∀ id, i.ancestors id = []
  lineage : ∀ {id e older}, i.ancestors id = e :: older → e.id = id ∧ Lineage (e :: older)
  tail : ∀ {id e parent older}, i.ancestors id = e :: parent :: older →
    i.ancestors parent.id = parent :: older

variable {i j : ChainIndex}

theorem ancestors_add (i : ChainIndex) (e : Entry) (older : List Entry) (id : Digest) :
    (i.add e older).ancestors id = if e.id = id then e :: older else i.ancestors id := by
  simp only [add, ancestors, Std.HashMap.getD_insert, beq_iff_eq]

theorem isEmpty_add (i : ChainIndex) (e : Entry) (older : List Entry) :
    (i.add e older).isEmpty = false := by
  simp [add, isEmpty]

theorem ancestors_empty (id : Digest) : empty.ancestors id = [] := Std.HashMap.getD_empty

theorem ancestors_eq_nil {id : Digest} (hnew : i.lineages.contains id = false) :
    i.ancestors id = [] :=
  Std.HashMap.getD_eq_fallback_of_contains_eq_false hnew

theorem insertGenesis_eq {h : Header} (hj : i.insertGenesis h = .ok j) :
    i.isEmpty ∧ h.parent.isZero ∧ j = i.add (Entry.genesis h) [] := by
  unfold insertGenesis at hj
  split_ifs at hj with he hz
  cases hj
  exact ⟨by simpa using he, by simpa using hz, rfl⟩

theorem insertGenesis_empty {h : Header} (hz : h.parent.isZero) :
    empty.insertGenesis h = .ok (empty.add (Entry.genesis h) []) := by
  simp [insertGenesis, hz, empty, isEmpty]

theorem insert_eq {h : Header} (hj : i.insert h = .ok j) :
    ∃ parent older, i.ancestors h.id = [] ∧ i.ancestors h.parent = parent :: older ∧
      j = i.add (Entry.child h parent older) (parent :: older) := by
  unfold insert at hj
  split_ifs at hj with hk
  have hnew : i.ancestors h.id = [] := ancestors_eq_nil (Bool.eq_false_iff.mpr hk)
  cases hp : i.ancestors h.parent with
  | nil =>
    rw [hp] at hj
    cases hj
  | cons parent older =>
    rw [hp] at hj
    cases hj
    exact ⟨parent, older, hnew, rfl, rfl⟩

theorem contains_add (i : ChainIndex) (e : Entry) (older : List Entry) (id : Digest) :
    (i.add e older).lineages.contains id = (e.id == id || i.lineages.contains id) :=
  Std.HashMap.contains_insert

theorem ancestors_add_self (i : ChainIndex) (e : Entry) (older : List Entry) :
    (i.add e older).ancestors e.id = e :: older :=
  (i.ancestors_add e older e.id).trans (if_pos rfl)

theorem ancestors_add_of_ne {e : Entry} {id : Digest} (older : List Entry) (hne : e.id ≠ id) :
    (i.add e older).ancestors id = i.ancestors id :=
  (i.ancestors_add e older id).trans (if_neg hne)

theorem contains_add_of_ne {e : Entry} {id : Digest} (older : List Entry) (hne : e.id ≠ id) :
    (i.add e older).lineages.contains id = i.lineages.contains id := by
  rw [contains_add, beq_eq_false_iff_ne.mpr hne, Bool.false_or]

theorem insert_of_fresh {h : Header} {parent : Entry} {older : List Entry}
    (hnew : i.lineages.contains h.id = false) (hp : i.ancestors h.parent = parent :: older) :
    i.insert h = .ok (i.add (Entry.child h parent older) (parent :: older)) := by
  simp only [insert, hnew, hp, Bool.false_eq_true, if_false]

namespace WellFormed

theorem empty : WellFormed .empty where
  unknown_of_isEmpty _ := ancestors_empty
  lineage h := by simp [ancestors_empty] at h
  tail h := by simp [ancestors_empty] at h

/-- An entry under a new identity changes no other answer, and known parents stay known. -/
theorem add {e : Entry} {older : List Entry} (hi : i.WellFormed) (hnew : i.ancestors e.id = [])
    (hl : Lineage (e :: older))
    (hp : ∀ {parent rest}, older = parent :: rest → i.ancestors parent.id = older) :
    (i.add e older).WellFormed where
  unknown_of_isEmpty he := by simp [isEmpty_add] at he
  lineage {id x rest} hx := by
    rw [ancestors_add] at hx
    split_ifs at hx with hid
    · cases hx
      exact ⟨hid, hl⟩
    · exact hi.lineage hx
  tail {id x parent rest} hx := by
    have hparent : i.ancestors parent.id = parent :: rest := by
      rw [ancestors_add] at hx
      split_ifs at hx with hid
      · cases hx
        exact hp rfl
      · exact hi.tail hx
    have hne : e.id ≠ parent.id := by
      intro heq
      rw [heq, hparent] at hnew
      cases hnew
    rw [ancestors_add_of_ne older hne, hparent]

end WellFormed

theorem Built.wellFormed (hi : i.Built) : i.WellFormed := by
  induction hi with
  | empty => exact .empty
  | genesis _ hj ih =>
    obtain ⟨he, hz, rfl⟩ := insertGenesis_eq hj
    exact ih.add (ih.unknown_of_isEmpty he _) (.genesis _ hz) nofun
  | header _ hj ih =>
    obtain ⟨parent, older, hnew, hp, rfl⟩ := insert_eq hj
    obtain ⟨hid, hl⟩ := ih.lineage hp
    refine ih.add hnew (.child _ hid.symm hl) fun heq => ?_
    cases heq
    rw [hid, hp]

theorem get?_eq_some {id : Digest} {e : Entry} :
    i.get? id = some e ↔ ∃ older, i.ancestors id = e :: older :=
  List.head?_eq_some_iff

theorem WellFormed.id_of_get? (hi : i.WellFormed) {id : Digest} {e : Entry}
    (he : i.get? id = some e) : e.id = id := by
  obtain ⟨older, ha⟩ := get?_eq_some.mp he
  exact (hi.lineage ha).1

/-- Whether each entry is a child of the one before it, the first one of `start`. -/
def Descends (i : ChainIndex) (start : Entry) : List Entry → Prop
  | [] => True
  | e :: rest => i.get? e.id = some e ∧ i.parent? e.id = some start ∧ Descends i e rest

theorem descends_append {start : Entry} {xs ys : List Entry} :
    i.Descends start (xs ++ ys) ↔ i.Descends start xs ∧ i.Descends (xs.getLastD start) ys := by
  induction xs generalizing start with
  | nil => exact (and_iff_right trivial).symm
  | cons e xs ih =>
    rw [List.cons_append, Descends, Descends, ih, List.getLastD_cons, and_assoc, and_assoc]

theorem Descends.exists_ancestors {start e : Entry} {ds : List Entry}
    (hds : i.Descends start (e :: ds)) : ∃ older, i.ancestors e.id = e :: start :: older := by
  obtain ⟨he, hp, -⟩ := hds
  obtain ⟨older, ha⟩ := get?_eq_some.mp he
  rw [parent?, ha, List.tail_cons] at hp
  obtain ⟨older, rfl⟩ := List.head?_eq_some_iff.mp hp
  exact ⟨older, ha⟩

theorem get?_of_descends {start : Entry} {ds : List Entry} (hs : i.get? start.id = some start)
    (hds : i.Descends start ds) :
    i.get? (ds.getLastD start).id = some (ds.getLastD start) := by
  induction ds generalizing start with
  | nil => exact hs
  | cons e rest ih =>
    rw [List.getLastD_cons]
    exact ih hds.1 hds.2.2

theorem WellFormed.ancestors_of_descends (hi : i.WellFormed) {start : Entry} {ds : List Entry}
    (hds : i.Descends start ds) :
    i.ancestors (ds.getLastD start).id = ds.reverse ++ i.ancestors start.id := by
  induction ds generalizing start with
  | nil => rfl
  | cons e rest ih =>
    obtain ⟨older, ha⟩ := hds.exists_ancestors
    rw [List.getLastD_cons, ih hds.2.2, ha, hi.tail ha, List.reverse_cons, List.append_assoc,
      List.singleton_append]

theorem WellFormed.ancestors_of_append (hi : i.WellFormed) {id : Digest} {newer older : List Entry}
    {e : Entry} (ha : i.ancestors id = newer ++ e :: older) : i.ancestors e.id = e :: older := by
  induction newer generalizing id with
  | nil => rw [(hi.lineage ha).1, ha, List.nil_append]
  | cons first newer ih =>
    cases newer with
    | nil => exact ih (hi.tail ha)
    | cons second newer => exact ih (hi.tail ha)

/-- The entries above an ancestor are children of each other. -/
theorem WellFormed.descends_of_ancestors (hi : i.WellFormed) {id : Digest} {start : Entry}
    {ds older : List Entry} (ha : i.ancestors id = ds.reverse ++ start :: older) :
    i.Descends start ds := by
  induction ds generalizing start older with
  | nil => trivial
  | cons e rest ih =>
    rw [List.reverse_cons, List.append_assoc, List.singleton_append] at ha
    have he := hi.ancestors_of_append ha
    refine ⟨get?_eq_some.mpr ⟨_, he⟩, ?_, ih ha⟩
    rw [parent?, he]
    rfl

/-- The index of a first block alone. -/
theorem built_single {g : Header} (hz : g.parent.isZero) :
    let i : ChainIndex := empty.add (.genesis g) []
    i.Built ∧ i.ancestors g.id = [.genesis g] ∧
      ∀ id, id ≠ g.id → i.lineages.contains id = false := by
  refine ⟨.genesis .empty (insertGenesis_empty hz), ancestors_add_self _ _ _, ?_⟩
  intro id hne
  rw [contains_add_of_ne [] (Ne.symm hne), empty, Std.HashMap.contains_empty]

/-- The index of a first block and one child. -/
theorem built_pair {g h : Header} (hz : g.parent.isZero) (hlink : h.parent = g.id)
    (hne : h.id ≠ g.id) :
    let start : Entry := .genesis g
    let e : Entry := .child h start []
    let i : ChainIndex := (empty.add start []).add e [start]
    i.Built ∧ i.get? g.id = some start ∧ i.Descends start [e] := by
  intro start e i
  obtain ⟨hbuilt, hstart, hfresh⟩ := built_single hz
  have hs : i.ancestors g.id = [start] := (ancestors_add_of_ne [start] hne).trans hstart
  have he : i.ancestors e.id = [e, start] := ancestors_add_self _ _ _
  refine ⟨.header hbuilt (insert_of_fresh (hfresh _ hne) ?_), get?_eq_some.mpr ⟨_, hs⟩,
    get?_eq_some.mpr ⟨_, he⟩, ?_, trivial⟩
  · rw [hlink, hstart]
  · rw [parent?, he]
    rfl

/-- A child, a second child of the same entry and a child of the first can be inserted in turn. -/
theorem insert_fork {h other last : Header} {parent : Entry} {older : List Entry}
    (hp : i.ancestors h.parent = parent :: older) (hother : other.parent = h.parent)
    (hlast : last.parent = h.id)
    (hfresh : ∀ x ∈ [h, other, last], i.lineages.contains x.id = false)
    (hids : ([h, other, last].map Header.id).Nodup) :
    let e : Entry := .child h parent older
    let k := i.add e (parent :: older)
    let k' := k.add (.child other parent older) (parent :: older)
    i.insert h = .ok k ∧ k.insert other = .ok k' ∧ k'.ancestors h.id = e :: parent :: older ∧
      k'.insert last = .ok (k'.add (.child last e (parent :: older)) (e :: parent :: older)) := by
  intro e k k'
  obtain ⟨⟨hho, hhl⟩, hol⟩ : (h.id ≠ other.id ∧ h.id ≠ last.id) ∧ other.id ≠ last.id := by
    simpa using hids
  have hknown : h.id ≠ h.parent := by
    intro heq
    rw [← heq, ancestors_eq_nil (hfresh h (by simp))] at hp
    cases hp
  have hk : k.ancestors h.parent = parent :: older := (ancestors_add_of_ne _ hknown).trans hp
  have hk' : k'.ancestors h.id = e :: parent :: older :=
    (ancestors_add_of_ne _ hho.symm).trans (ancestors_add_self i e _)
  have hfreshOther : k.lineages.contains other.id = false :=
    (contains_add_of_ne _ hho).trans (hfresh other (by simp))
  have hfreshLast : k'.lineages.contains last.id = false :=
    (contains_add_of_ne _ hol).trans
      ((contains_add_of_ne _ hhl).trans (hfresh last (by simp)))
  exact ⟨insert_of_fresh (hfresh h (by simp)) hp, insert_of_fresh hfreshOther (hother ▸ hk), hk',
    insert_of_fresh hfreshLast (hlast ▸ hk')⟩

/-- New headers that are linked from an entry can be inserted one after the other. -/
theorem Built.exists_foldlM_insert_linked {start : Entry} {older : List Entry} {hs : List Header}
    (hi : i.Built) (ha : i.ancestors start.id = start :: older) (hlink : LinkedFrom start.id hs)
    (hfresh : ∀ h ∈ hs, i.lineages.contains h.id = false) (hids : (hs.map Header.id).Nodup) :
    ∃ (j : ChainIndex) (ds : List Entry), hs.foldlM insert i = .ok j ∧ j.Built ∧
      j.ancestors (tipId start.id hs) = ds.reverse ++ start :: older ∧
      ds.map Entry.header = hs := by
  induction hs generalizing i start older with
  | nil => exact ⟨i, [], rfl, hi, ha, rfl⟩
  | cons h rest ih =>
    obtain ⟨hparent, hrest⟩ := hlink
    obtain ⟨hnew, hids⟩ := List.nodup_cons.mp hids
    have hinsert := insert_of_fresh (hfresh h List.mem_cons_self) (hparent ▸ ha)
    have hfresh' : ∀ x ∈ rest,
        (i.add (.child h start older) (start :: older)).lineages.contains x.id = false := by
      intro x hx
      have hne : h.id ≠ x.id := fun heq => hnew (heq ▸ List.mem_map_of_mem hx)
      exact (contains_add_of_ne (start :: older) hne).trans (hfresh x (List.mem_cons_of_mem h hx))
    have hchild : (i.add (.child h start older) (start :: older)).ancestors
        (Entry.child h start older).id = .child h start older :: start :: older :=
      ancestors_add_self _ _ _
    obtain ⟨j, ds, hj, hbuilt, htip, hheaders⟩ :=
      ih (.header hi hinsert) hchild hrest hfresh' hids
    refine ⟨j, .child h start older :: ds, ?_, hbuilt, ?_, ?_⟩
    · rw [List.foldlM_cons, hinsert]
      exact hj
    · rw [List.reverse_cons, List.append_assoc, List.singleton_append]
      exact htip
    · rw [List.map_cons, hheaders]
      rfl

/-- A linked run of headers with identities of their own, above a first block. -/
theorem exists_linked {g : Header} {hs : List Header} (hz : g.parent.isZero)
    (hlink : LinkedFrom g.id hs) (hids : ((g :: hs).map Header.id).Nodup) :
    ∃ (j : ChainIndex) (ds : List Entry),
      hs.foldlM insert (empty.add (.genesis g) []) = .ok j ∧ j.Built ∧
      j.ancestors g.id = [.genesis g] ∧ j.Descends (.genesis g) ds ∧ ds.map Entry.header = hs := by
  obtain ⟨hbuilt, hfirst, hothers⟩ := built_single hz
  obtain ⟨hnew, hids⟩ := List.nodup_cons.mp hids
  have hfresh : ∀ h ∈ hs, (empty.add (.genesis g) []).lineages.contains h.id = false := by
    intro h hh
    apply hothers
    intro heq
    exact hnew (heq ▸ List.mem_map_of_mem hh)
  have hstart : (empty.add (.genesis g) []).ancestors (Entry.genesis g).id = [.genesis g] := hfirst
  obtain ⟨j, ds, hj, hbuilt, htip, hheaders⟩ :=
    hbuilt.exists_foldlM_insert_linked hstart hlink hfresh hids
  have hw := hbuilt.wellFormed
  exact ⟨j, ds, hj, hbuilt, hw.ancestors_of_append htip, hw.descends_of_ancestors htip, hheaders⟩

/-- A first block and fourteen headers, each a second later than the one before. -/
theorem exists_seconds :
    let g : Header := ⟨1, .zero, .zero, 1700000000, ⟨0x200f0f0f⟩, 0⟩
    let later := relink g.id
      ((List.range 14).map fun n => ⟨1, .zero, 1700000001 + .ofNat n, ⟨0x200f0f0f⟩, 0⟩)
    ∃ (i : ChainIndex) (ds : List Entry),
      later.foldlM insert (empty.add (.genesis g) []) = .ok i ∧ i.Built ∧
      i.ancestors g.id = [.genesis g] ∧ i.Descends (.genesis g) ds ∧ ds.length = 14 ∧
      ds.map Entry.header = later := by
  obtain ⟨i, ds, hi, hbuilt, hfirst, hds, hheaders⟩ :=
    exists_linked (by decide) (linkedFrom_relink _ _) Header.nodup_id_seconds
  refine ⟨i, ds, hi, hbuilt, hfirst, hds, ?_, hheaders⟩
  rw [← List.length_map (f := Entry.header), hheaders, length_relink, List.length_map,
    List.length_range]

end ChainIndex
end HeaderSync
