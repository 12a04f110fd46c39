import HeaderSync.Proofs.ChainIndex.Growth
import HeaderSync.Proofs.ChainIndex.MedianTimes
import Mathlib.Data.List.Nodup

/-!
# What an index holds

The entries stand in an array in order of insertion, and once more under each identity, with their
ancestors. `Stored` says that the two go together and that a parent stands before its children;
every insertion keeps it. The height, the work and the median time of an entry are functions of its
ancestors, so the array settles every answer about an entry.
-/

namespace HeaderSync
attribute [local irreducible] Header.id Compact.work

theorem find?_eq_some_iff_of_nodup {α : Type} {f : α → Nat} {l : List α} {a : α} {k : Nat}
    (hl : (l.map f).Nodup) : l.find? (fun b => f b = k) = some a ↔ a ∈ l ∧ f a = k := by
  constructor
  · intro hfind
    exact ⟨List.mem_of_find?_eq_some hfind, by simpa using List.find?_some hfind⟩
  · rintro ⟨ha, rfl⟩
    cases hfind : l.find? (fun b => f b = f a) with
    | none => exact absurd (decide_eq_true rfl) (List.find?_eq_none.mp hfind a ha)
    | some b =>
      have hb : f b = f a := by simpa using List.find?_some hfind
      rw [List.inj_on_of_nodup_map hl (List.mem_of_find?_eq_some hfind) ha hb]

namespace Lineage
variable {l older : List Entry} {e parent : Entry} {height : Nat}

theorem first_eq (hl : Lineage [e]) : e.header.parent.isZero = true ∧ e.height = 0 := by
  cases hl with
  | genesis h zero => exact ⟨zero, rfl⟩

theorem link_eq (hl : Lineage (e :: parent :: older)) :
    parent.id = e.header.parent ∧ e.height = parent.height + 1 := by
  cases hl with
  | child h link rest => exact ⟨link.symm, rfl⟩

theorem map_height (hl : Lineage l) : l.map Entry.height = (List.range l.length).reverse := by
  induction hl with
  | genesis h zero => rfl
  | @child h parent older link rest ih =>
    have hheight : (Entry.child h parent older).height = (parent :: older).length :=
      rest.length_eq.symm
    change _ = (List.range ((parent :: older).length + 1)).reverse
    rw [List.map_cons, ih, hheight, List.range_succ, List.reverse_append, List.reverse_singleton,
      List.singleton_append]

theorem work_eq (hl : Lineage l) :
    (l.head hl.ne_nil).work = UInt256.sum (l.map (·.header.bits.work)) := by
  induction hl with
  | genesis h zero => exact (UInt256.zero_satAdd h.bits.work).symm
  | child h link rest ih =>
    rw [List.map_cons, UInt256.sum_cons, ← ih]
    rfl

theorem mem_height_iff (hl : Lineage (e :: older)) :
    (∃ a ∈ e :: older, a.height = height) ↔ height ≤ e.height := by
  have hlength : (e :: older).length = e.height + 1 := hl.length_eq
  rw [← List.mem_map, hl.map_height, List.mem_reverse, List.mem_range, hlength, Nat.lt_succ_iff]

theorem nodup_height (hl : Lineage l) : (l.map Entry.height).Nodup := by
  rw [hl.map_height, List.nodup_reverse]
  exact List.nodup_range

end Lineage

namespace ChainIndex

inductive Call where
  | genesis (h : Header)
  | insert (h : Header)
  | accept (p : Params) (h : Header)

def Call.header : Call → Header
  | genesis h => h
  | insert h => h
  | accept _ h => h

def Call.result (c : Call) (i : ChainIndex) : Except IndexError ChainIndex :=
  match c with
  | genesis h => i.insertGenesis h
  | insert h => i.insert h
  | accept p h => i.accept p h

/-- The index after a call; a refused call leaves it as it was. -/
def perform (i : ChainIndex) (c : Call) : ChainIndex :=
  match c.result i with
  | .ok j => j
  | .error _ => i

def performAll (i : ChainIndex) (cs : List Call) : ChainIndex := cs.foldl perform i

variable {i j : ChainIndex} {id : Digest} {c : Call}

theorem Built.result (hi : i.Built) (hj : c.result i = .ok j) : j.Built := by
  cases c with
  | genesis h => exact .genesis hi hj
  | insert h => exact .header hi hj
  | accept p h => exact .header hi (required_of_accept hj).2

theorem Built.performAll (hi : i.Built) (cs : List Call) : (i.performAll cs).Built := by
  induction cs generalizing i with
  | nil => exact hi
  | cons c cs ih =>
    apply ih
    unfold perform
    cases hc : c.result i with
    | error e => exact hi
    | ok j => exact hi.result hc

/-- How the array of entries and the ancestors under the identities go together. -/
structure Stored (i : ChainIndex) : Prop where
  nodup : (i.entries.toList.map Entry.id).Nodup
  contains_iff : ∀ id, i.lineages.contains id = true ↔ i.ancestors id ≠ []
  known : ∀ e ∈ i.entries, i.get? e.id = some e
  mem_entries : ∀ id, ∀ e ∈ i.ancestors id, e ∈ i.entries
  first : ∀ e, i.entries[0]? = some e → i.ancestors e.id = [e]
  later : ∀ n e, i.entries[n + 1]? = some e → ∃ m parent older, m ≤ n ∧
    i.entries[m]? = some parent ∧ i.ancestors e.id = e :: parent :: older

namespace Stored

theorem empty : Stored .empty where
  nodup := .nil
  contains_iff id := by
    rw [ancestors_empty, ChainIndex.empty, Std.HashMap.contains_empty]
    simp
  known e he := absurd he (Array.not_mem_empty e)
  mem_entries id e he := by
    rw [ancestors_empty] at he
    exact absurd he List.not_mem_nil
  first e he := by cases he
  later n e he := by cases he

variable {e x : Entry} {older : List Entry}

theorem id_ne (hi : i.Stored) (hnew : i.lineages.contains e.id = false) (hx : x ∈ i.entries) :
    e.id ≠ x.id := by
  intro heq
  have hknown := hi.known x hx
  rw [get?, ← heq, ancestors_eq_nil hnew] at hknown
  cases hknown

theorem ancestors_add_of_mem (hi : i.Stored) (hnew : i.lineages.contains e.id = false)
    (hx : x ∈ i.entries) : (i.add e older).ancestors x.id = i.ancestors x.id :=
  ancestors_add_of_ne older (hi.id_ne hnew hx)

/-- A new entry goes below the entry that its ancestors begin with, or is the first of all. -/
theorem add (hi : i.Stored) (hnew : i.lineages.contains e.id = false)
    (hplace : older = [] ∧ i.entries.size = 0 ∨
      ∃ parent rest, older = parent :: rest ∧ i.ancestors parent.id = parent :: rest) :
    (i.add e older).Stored where
  nodup := by
    rw [ChainIndex.add, Array.toList_push, List.map_append, List.nodup_append]
    refine ⟨hi.nodup, List.nodup_singleton _, ?_⟩
    intro a ha b hb
    obtain ⟨x, hx, rfl⟩ := List.mem_map.mp ha
    rw [List.mem_singleton.mp hb]
    exact (hi.id_ne hnew (Array.mem_toList_iff.mp hx)).symm
  contains_iff id := by
    rw [contains_add, ancestors_add, Bool.or_eq_true, beq_iff_eq, hi.contains_iff]
    by_cases hid : e.id = id
    · simp [hid]
    · simp [hid]
  known x hx := by
    rcases Array.mem_push.mp hx with hx | rfl
    · rw [get?, hi.ancestors_add_of_mem hnew hx]
      exact hi.known x hx
    · rw [get?, ancestors_add_self]
      rfl
  mem_entries id x hx := by
    rw [ancestors_add] at hx
    apply Array.mem_push.mpr
    split_ifs at hx with hid
    · rcases List.mem_cons.mp hx with rfl | hx
      · exact .inr rfl
      · obtain ⟨rfl, -⟩ | ⟨parent, rest, rfl, hparent⟩ := hplace
        · exact absurd hx List.not_mem_nil
        · exact .inl (hi.mem_entries parent.id x (hparent ▸ hx))
    · exact .inl (hi.mem_entries id x hx)
  first x hx := by
    rw [ChainIndex.add, Array.getElem?_push] at hx
    split_ifs at hx with hsize
    · cases hx
      obtain ⟨rfl, -⟩ | ⟨parent, rest, rfl, hparent⟩ := hplace
      · exact ancestors_add_self i _ _
      · -- The parent would be an entry of an empty array.
        have hmem := hi.mem_entries parent.id parent (hparent ▸ List.mem_cons_self)
        have hpos := Array.size_pos_of_mem hmem
        omega
    · rw [hi.ancestors_add_of_mem hnew (Array.mem_of_getElem? hx)]
      exact hi.first x hx
  later n x hx := by
    have hkeep {m : Nat} {y : Entry} (hy : i.entries[m]? = some y) :
        (i.add e older).entries[m]? = some y := by
      rw [ChainIndex.add, Array.getElem?_push, if_neg, hy]
      exact Nat.ne_of_lt (Array.getElem?_eq_some_iff.mp hy).1
    rw [ChainIndex.add, Array.getElem?_push] at hx
    split_ifs at hx with hsize
    · cases hx
      obtain ⟨-, hzero⟩ | ⟨parent, rest, rfl, hparent⟩ := hplace
      · omega
      · have hmem := hi.mem_entries parent.id parent (hparent ▸ List.mem_cons_self)
        obtain ⟨m, hm⟩ := Array.mem_iff_getElem?.mp hmem
        have hlt := (Array.getElem?_eq_some_iff.mp hm).1
        refine ⟨m, parent, rest, by omega, hkeep hm, ?_⟩
        exact ancestors_add_self i _ _
    · obtain ⟨m, parent, rest, hle, hm, hancestors⟩ := hi.later n x hx
      refine ⟨m, parent, rest, hle, hkeep hm, ?_⟩
      rw [hi.ancestors_add_of_mem hnew (Array.mem_of_getElem? hx)]
      exact hancestors

end Stored

theorem Built.stored (hi : i.Built) : i.Stored := by
  induction hi with
  | empty => exact .empty
  | @genesis i j h _ hj ih =>
    obtain ⟨hempty, -, rfl⟩ := insertGenesis_eq hj
    have hsize : i.entries.size = 0 := by simpa [isEmpty] using hempty
    have hfresh : i.lineages.contains h.id = false := by
      rw [Bool.eq_false_iff, ne_eq, ih.contains_iff]
      intro hne
      obtain ⟨e, older, ha⟩ := List.exists_cons_of_ne_nil hne
      have hpos := Array.size_pos_of_mem (ih.mem_entries h.id e (ha ▸ List.mem_cons_self))
      omega
    exact ih.add hfresh (.inl ⟨rfl, hsize⟩)
  | @header i j h hi hj ih =>
    have hfresh : i.lineages.contains h.id = false := by
      unfold insert at hj
      split_ifs at hj with hknown
      exact Bool.eq_false_iff.mpr hknown
    obtain ⟨parent, older, -, hp, rfl⟩ := insert_eq hj
    have hid : parent.id = h.parent := (hi.wellFormed.lineage hp).1
    exact ih.add hfresh (.inr ⟨parent, older, rfl, hid ▸ hp⟩)

structure Represented (i : ChainIndex) : Prop where
  nodup : (i.entries.toList.map Entry.id).Nodup
  id_eq : ∀ e ∈ i.entries, e.id = e.header.id
  contains_iff : ∀ id, i.lineages.contains id = true ↔ ∃ e ∈ i.entries, e.id = id
  get?_iff : ∀ id e, i.get? id = some e ↔ e ∈ i.entries ∧ e.id = id
  first : ∀ e, i.entries[0]? = some e → e.header.parent.isZero = true ∧ e.height = 0 ∧
    i.parent? e.id = none ∧ i.ancestors e.id = [e]
  later : ∀ n e, i.entries[n + 1]? = some e → ∃ m parent, m ≤ n ∧
    i.entries[m]? = some parent ∧ i.parent? e.id = some parent ∧ parent.id = e.header.parent ∧
    e.height = parent.height + 1 ∧ i.ancestors e.id = e :: i.ancestors parent.id
  work : ∀ e ∈ i.entries,
    e.work = UInt256.sum ((i.ancestors e.id).map (·.header.bits.work))
  medianTime : ∀ e ∈ i.entries,
    IsUpperMedian (((i.ancestors e.id).take 11).map (·.header.seconds)) e.medianTime

variable {e : Entry} {older : List Entry}

theorem Stored.get?_iff (hs : i.Stored) (hw : i.WellFormed) :
    i.get? id = some e ↔ e ∈ i.entries ∧ e.id = id := by
  constructor
  · intro he
    obtain ⟨older, ha⟩ := get?_eq_some.mp he
    exact ⟨hs.mem_entries id e (ha ▸ List.mem_cons_self), hw.id_of_get? he⟩
  · rintro ⟨he, rfl⟩
    exact hs.known e he

theorem Built.represented (hi : i.Built) : i.Represented := by
  have hs := hi.stored
  have hw := hi.wellFormed
  have hlineage {e : Entry} (he : e ∈ i.entries) :
      ∃ older, i.ancestors e.id = e :: older ∧ Lineage (e :: older) := by
    obtain ⟨older, ha⟩ := get?_eq_some.mp (hs.known e he)
    exact ⟨older, ha, (hw.lineage ha).2⟩
  refine ⟨hs.nodup, ?_, ?_, fun id e => hs.get?_iff hw, ?_, ?_, ?_, ?_⟩
  · intro e he
    obtain ⟨older, -, hl⟩ := hlineage he
    exact hl.id_eq
  · intro id
    rw [hs.contains_iff]
    constructor
    · intro hne
      obtain ⟨e, older, ha⟩ := List.exists_cons_of_ne_nil hne
      exact ⟨e, (hs.get?_iff hw).mp (get?_eq_some.mpr ⟨older, ha⟩)⟩
    · rintro ⟨e, he, rfl⟩
      obtain ⟨older, ha, -⟩ := hlineage he
      rw [ha]
      exact List.cons_ne_nil e older
  · intro e he
    have ha := hs.first e he
    obtain ⟨hzero, hheight⟩ := (hw.lineage ha).2.first_eq
    refine ⟨hzero, hheight, ?_, ha⟩
    rw [parent?, ha]
    rfl
  · intro n e he
    obtain ⟨m, parent, older, hle, hm, ha⟩ := hs.later n e he
    obtain ⟨hlink, hheight⟩ := (hw.lineage ha).2.link_eq
    refine ⟨m, parent, hle, hm, ?_, hlink, hheight, ?_⟩
    · rw [parent?, ha]
      rfl
    · rw [hw.tail ha, ha]
  · intro e he
    obtain ⟨older, ha, hl⟩ := hlineage he
    rw [ha]
    exact hl.work_eq
  · intro e he
    obtain ⟨older, ha, hl⟩ := hlineage he
    rw [ha, isUpperMedian_iff (by simp), hl.medianTime_eq, List.map_take]
    rfl

namespace Represented

/-- Every chain of parents ends at the first entry. -/
theorem getLast?_ancestors (hr : i.Represented) {n : Nat} {e : Entry}
    (he : i.entries[n]? = some e) : (i.ancestors e.id).getLast? = i.genesis? := by
  induction n using Nat.strong_induction_on generalizing e with
  | _ n ih =>
    cases n with
    | zero =>
      obtain ⟨-, -, -, ha⟩ := hr.first e he
      rw [ha, genesis?, he]
      rfl
    | succ n =>
      obtain ⟨m, parent, hle, hm, -, -, -, ha⟩ := hr.later n e he
      have hlast := ih m (Nat.lt_succ_of_le hle) hm
      have hne : i.ancestors parent.id ≠ [] := by
        intro hnil
        rw [hnil, List.getLast?_nil, genesis?, eq_comm, Array.getElem?_eq_none_iff] at hlast
        have hlt := (Array.getElem?_eq_some_iff.mp hm).1
        omega
      rw [ha, List.getLast?_cons_of_ne_nil hne, hlast]

end Represented

theorem ancestor?_eq_none_iff {height : Nat} :
    i.ancestor? id height = none ↔ ∀ a ∈ i.ancestors id, a.height ≠ height := by
  rw [ancestor?, List.find?_eq_none]
  simp

/-- A call that is not refused adds the entry of its header, which was not known before. -/
theorem WellFormed.exists_add (hi : i.WellFormed) (hj : c.result i = .ok j) :
    ∃ e older, e.header = c.header ∧ e.id = c.header.id ∧ i.ancestors e.id = [] ∧
      j = i.add e older := by
  have hinsert {h : Header} (hj : i.insert h = .ok j) :
      ∃ (e : Entry) (older : List Entry), e.header = h ∧ e.id = h.id ∧ i.ancestors e.id = [] ∧
        j = i.add e older := by
    obtain ⟨parent, older, hnew, -, rfl⟩ := insert_eq hj
    exact ⟨_, _, rfl, rfl, hnew, rfl⟩
  cases c with
  | genesis h =>
    obtain ⟨hempty, -, rfl⟩ := insertGenesis_eq hj
    exact ⟨_, _, rfl, rfl, hi.unknown_of_isEmpty hempty _, rfl⟩
  | insert h => exact hinsert hj
  | accept p h => exact hinsert (required_of_accept hj).2

end ChainIndex
end HeaderSync
