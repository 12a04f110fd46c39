import HeaderSync.Proofs.ChainIndex.Storage
import HeaderSync.Proofs.Header.Identity

/-!
# The order of insertion

The headers of an index determine its answers: an entry's ancestors are found by going from a header
to the one that it names as its parent, and no other header has a part in them. So indexes that hold
the same headers agree on everything but the tip, whatever the order of insertion was, and a new
entry changes no answer about the old ones. The tip is the first of the entries with the most work.
-/

namespace HeaderSync
attribute [local irreducible] Header.id Compact.work

/-- Whether every header stands after its parent, or has its parent among `known`. -/
def ParentsFirst (known : List Header) : List Header → Prop
  | [] => True
  | h :: rest => (∃ parent ∈ known, h.parent = parent.id) ∧ ParentsFirst (known ++ [h]) rest

/-- `t` has the most work of the entries, and of those with as much it stands first. -/
def Entry.Leads (t : Entry) (es : List Entry) : Prop :=
  ∃ before after, es = before ++ t :: after ∧ (∀ e ∈ before, e.work < t.work) ∧
    ∀ e ∈ after, e.work ≤ t.work

namespace Entry.Leads
variable {t e : Entry} {es : List Entry}

theorem work_le (ht : t.Leads es) (he : e ∈ es) : e.work ≤ t.work := by
  obtain ⟨before, after, rfl, hbefore, hafter⟩ := ht
  rcases List.mem_append.mp he with he | he
  · exact Nat.le_of_lt (hbefore e he)
  · rcases List.mem_cons.mp he with rfl | he
    · exact Nat.le_refl _
    · exact hafter e he

theorem concat_of_lt (ht : t.Leads es) (hlt : t.work < e.work) : e.Leads (es ++ [e]) := by
  refine ⟨es, [], rfl, ?_, fun x hx => absurd hx List.not_mem_nil⟩
  intro x hx
  exact Nat.lt_of_le_of_lt (ht.work_le hx) hlt

theorem concat_of_not_lt (ht : t.Leads es) (hle : ¬ t.work < e.work) : t.Leads (es ++ [e]) := by
  obtain ⟨before, after, rfl, hbefore, hafter⟩ := ht
  refine ⟨before, after ++ [e], by rw [List.append_assoc, List.cons_append], hbefore, ?_⟩
  intro x hx
  rcases List.mem_append.mp hx with hx | hx
  · exact hafter x hx
  · rw [List.mem_singleton.mp hx]
    exact Nat.le_of_not_lt hle

end Entry.Leads

namespace ChainIndex
variable {i j k : ChainIndex} {id : Digest} {g h : Header} {xs ys hs : List Header}

theorem tip?_add (i : ChainIndex) (e : Entry) (older : List Entry) :
    (i.add e older).tip? =
      match i.tip? with
      | none => some e
      | some t => if t.work < e.work then some e else some t :=
  Array.foldl_push

theorem Built.leads_tip? (hi : i.Built) :
    i.tip? = none ∧ i.entries.toList = [] ∨ ∃ t, i.tip? = some t ∧ t.Leads i.entries.toList := by
  have hadd {i : ChainIndex} {e : Entry} {older : List Entry}
      (ih : i.tip? = none ∧ i.entries.toList = [] ∨
        ∃ t, i.tip? = some t ∧ t.Leads i.entries.toList) :
      ∃ t, (i.add e older).tip? = some t ∧ t.Leads (i.add e older).entries.toList := by
    rw [tip?_add, add, Array.toList_push]
    obtain ⟨hnone, hnil⟩ | ⟨t, ht, hleads⟩ := ih
    · rw [hnone, hnil]
      exact ⟨e, rfl, [], [], rfl, fun x hx => absurd hx List.not_mem_nil,
        fun x hx => absurd hx List.not_mem_nil⟩
    · rw [ht]
      by_cases hlt : t.work < e.work
      · exact ⟨e, if_pos hlt, hleads.concat_of_lt hlt⟩
      · exact ⟨t, if_neg hlt, hleads.concat_of_not_lt hlt⟩
  induction hi with
  | empty => exact .inl ⟨rfl, rfl⟩
  | genesis _ hj ih =>
    obtain ⟨-, -, rfl⟩ := insertGenesis_eq hj
    exact .inr (hadd ih)
  | header _ hj ih =>
    obtain ⟨parent, older, -, -, rfl⟩ := insert_eq hj
    exact .inr (hadd ih)

structure AgreeOn (i j : ChainIndex) (id : Digest) : Prop where
  get?_eq : i.get? id = j.get? id
  parent?_eq : i.parent? id = j.parent? id
  ancestors_eq : i.ancestors id = j.ancestors id
  ancestor?_eq : ∀ height, i.ancestor? id height = j.ancestor? id height
  medianTime?_eq : i.medianTime? id = j.medianTime? id
  locator_eq : i.locator id = j.locator id
  samples_eq : ∀ count, i.samples id count = j.samples id count
  requiredAfter_eq : ∀ p time, i.requiredAfter p id time = j.requiredAfter p id time
  chainStart?_eq : ∀ count, i.chainStart? id count = j.chainStart? id count

/-- Every answer is read off the ancestors. -/
theorem AgreeOn.of_ancestors (h : i.ancestors id = j.ancestors id) : i.AgreeOn j id := by
  have hget : i.get? id = j.get? id := by rw [get?, h, get?]
  have hlocator : i.locator id = j.locator id := by rw [locator, hget, h, locator]
  refine ⟨hget, ?_, h, ?_, ?_, hlocator, ?_, ?_, ?_⟩
  · rw [parent?, h, parent?]
  · intro height
    rw [ancestor?, h, ancestor?]
  · rw [medianTime?, hget, medianTime?]
  · intro count
    rw [samples, h, samples]
  · intro p time
    rw [requiredAfter, requiredAfter, hget, samples, h, samples]
  · intro count
    rw [chainStart?, chainStart?, hget, h, hlocator]

/-- What a call that may add a header answers: the identity of the new entry, or why it was
refused. -/
def answer (result : Except IndexError ChainIndex) : Except IndexError (Option Digest) :=
  result.map fun j => j.entries.back?.map Entry.id

theorem answer_add (i : ChainIndex) (e : Entry) (older : List Entry) :
    answer (.ok (i.add e older)) = .ok (some e.id) := by
  rw [answer, Except.map, add, Array.back?_push, Option.map_some]

theorem WellFormed.answer_result {c : Call} (hi : i.WellFormed) (hj : c.result i = .ok j) :
    answer (c.result i) = .ok (some c.header.id) := by
  obtain ⟨e, older, -, hid, -, rfl⟩ := hi.exists_add hj
  rw [hj, ← hid, answer_add]

theorem Stored.answer_insert (hi : i.Stored) (h : Header) :
    answer (i.insert h) =
      if i.ancestors h.id ≠ [] then .error (.alreadyKnown h.id)
      else if i.ancestors h.parent = [] then .error (.unknownParent h.parent)
      else .ok (some h.id) := by
  unfold insert
  by_cases hknown : i.ancestors h.id ≠ []
  · rw [if_pos hknown, if_pos ((hi.contains_iff h.id).mpr hknown)]
    rfl
  · rw [if_neg hknown, if_neg (mt (hi.contains_iff h.id).mp hknown)]
    cases i.ancestors h.parent with
    | nil => rfl
    | cons parent older => exact answer_add i (.child h parent older) (parent :: older)

/-- The parent and the bits that the index requires are all that acceptance looks at before it
inserts. -/
theorem answer_accept_congr {p : Params} (hagree : i.AgreeOn j h.parent)
    (hinsert : answer (i.insert h) = answer (j.insert h)) :
    answer (i.accept p h) = answer (j.accept p h) := by
  unfold accept
  rw [hagree.get?_eq, hagree.requiredAfter_eq]
  cases j.get? h.parent with
  | none => rfl
  | some parent =>
    dsimp only
    by_cases htime : h.seconds ≤ parent.medianTime
    · rw [if_pos htime, if_pos htime]
      rfl
    · rw [if_neg htime, if_neg htime]
      cases j.requiredAfter p h.parent h.seconds with
      | error e => rfl
      | ok expected =>
        by_cases hbits : h.bits ≠ expected
        · simp only [bind, Except.bind, if_pos hbits]
          rfl
        · cases hproof : (h.checkProof p).mapError IndexError.proof with
          | error e =>
            simp only [bind, Except.bind, if_neg hbits]
          | ok u =>
            simp only [bind, Except.bind, if_neg hbits]
            exact hinsert

/-- Whether the entries of an index are those of the first block `g` and the headers `hs`, each of
these below the entry that it names as its parent. -/
structure Holds (i : ChainIndex) (g : Header) (hs : List Header) : Prop where
  first : i.ancestors g.id = [.genesis g]
  child : ∀ h ∈ hs, ∃ parent older, i.ancestors h.parent = parent :: older ∧
    i.ancestors h.id = .child h parent older :: parent :: older
  known : ∀ id, i.ancestors id ≠ [] → id = g.id ∨ ∃ h ∈ hs, id = h.id

namespace Holds

theorem insert (hi : i.Holds g hs) (hj : i.insert h = .ok j) : j.Holds g (hs ++ [h]) := by
  have hkept := KeptBy.of_insert hj
  obtain ⟨parent, older, -, hp, rfl⟩ := insert_eq hj
  refine ⟨?_, ?_, ?_⟩
  · rw [hkept g.id (by simp [hi.first]), hi.first]
  · intro x hx
    rcases List.mem_append.mp hx with hx | hx
    · obtain ⟨parent', older', hp', hx'⟩ := hi.child x hx
      exact ⟨parent', older', by rw [hkept x.parent (by simp [hp']), hp'],
        by rw [hkept x.id (by simp [hx']), hx']⟩
    · rw [List.mem_singleton.mp hx]
      refine ⟨parent, older, by rw [hkept h.parent (by simp [hp]), hp], ?_⟩
      rw [ancestors_add]
      exact if_pos rfl
  · intro id hknown
    rw [ancestors_add] at hknown
    split_ifs at hknown with hid
    · exact .inr ⟨h, List.mem_append_right hs List.mem_cons_self, hid.symm⟩
    · obtain hfirst | ⟨x, hx, hxid⟩ := hi.known id hknown
      · exact .inl hfirst
      · exact .inr ⟨x, List.mem_append_left [h] hx, hxid⟩

theorem exists_ancestors (hi : i.Holds g hs) (hh : h ∈ g :: hs) :
    ∃ e older, i.ancestors h.id = e :: older := by
  rcases List.mem_cons.mp hh with rfl | hh
  · exact ⟨_, _, hi.first⟩
  · obtain ⟨parent, older, -, hchild⟩ := hi.child h hh
    exact ⟨_, _, hchild⟩

/-- From an entry to its parent, the ancestors in one index lead the way in the other. -/
theorem ancestors_eq_cons (hi : i.Holds g xs) (hj : j.Holds g ys) (hsub : xs ⊆ ys) {e : Entry}
    {older : List Entry} (ha : i.ancestors id = e :: older) : j.ancestors id = e :: older := by
  induction older generalizing id e with
  | nil =>
    obtain rfl | ⟨h, hh, rfl⟩ := hi.known id (by simp [ha])
    · rw [hj.first, ← ha, hi.first]
    · obtain ⟨parent, older, -, hchild⟩ := hi.child h hh
      rw [hchild] at ha
      cases ha
  | cons parent older ih =>
    obtain rfl | ⟨h, hh, rfl⟩ := hi.known id (by simp [ha])
    · rw [hi.first] at ha
      cases ha
    · obtain ⟨parent', older', hp, hchild⟩ := hi.child h hh
      rw [hchild] at ha
      cases ha
      obtain ⟨parent', older', hp', hchild'⟩ := hj.child h (hsub hh)
      rw [ih hp] at hp'
      cases hp'
      exact hchild'

theorem ancestors_eq (hi : i.Holds g xs) (hj : j.Holds g ys) (hsame : ∀ h, h ∈ xs ↔ h ∈ ys)
    (id : Digest) : i.ancestors id = j.ancestors id := by
  cases ha : i.ancestors id with
  | cons e older => rw [hi.ancestors_eq_cons hj (fun h => (hsame h).mp) ha]
  | nil =>
    cases hb : j.ancestors id with
    | nil => rfl
    | cons e older =>
      rw [hj.ancestors_eq_cons hi (fun h => (hsame h).mpr) hb] at ha
      cases ha

end Holds

def ofHeaders (g : Header) (hs : List Header) : Except IndexError ChainIndex := do
  hs.foldlM insert (← empty.insertGenesis g)

theorem exists_foldlM_insert (hi : i.Built) (hheld : i.Holds g hs)
    (hentries : i.entries.toList.map Entry.header = g :: hs)
    (hids : ((g :: hs ++ xs).map Header.id).Nodup) (hparents : ParentsFirst (g :: hs) xs) :
    ∃ j, xs.foldlM insert i = .ok j ∧ j.Built ∧ j.Holds g (hs ++ xs) ∧
      j.entries.toList.map Entry.header = g :: hs ++ xs := by
  induction xs generalizing i hs with
  | nil => exact ⟨i, rfl, hi, by rwa [List.append_nil], by rwa [List.append_nil]⟩
  | cons h xs ih =>
    obtain ⟨⟨parent, hmem, hlink⟩, hrest⟩ := hparents
    have hassoc : g :: hs ++ h :: xs = g :: (hs ++ [h]) ++ xs := by simp
    have hfresh : i.lineages.contains h.id = false := by
      rw [Bool.eq_false_iff, ne_eq, hi.stored.contains_iff]
      intro hknown
      have hold : h.id ∈ (g :: hs).map Header.id := by
        obtain heq | ⟨x, hx, heq⟩ := hheld.known h.id hknown
        · exact List.mem_map.mpr ⟨g, List.mem_cons_self, heq.symm⟩
        · exact List.mem_map.mpr ⟨x, List.mem_cons_of_mem g hx, heq.symm⟩
      rw [List.map_append, List.nodup_append] at hids
      exact hids.2.2 _ hold _ List.mem_cons_self rfl
    obtain ⟨e, older, hp⟩ := hheld.exists_ancestors hmem
    rw [← hlink] at hp
    have hinsert := insert_of_fresh hfresh hp
    have hentries' : (i.add (.child h e older) (e :: older)).entries.toList.map Entry.header =
        g :: (hs ++ [h]) := by
      rw [add, Array.toList_push, List.map_append, hentries]
      rfl
    obtain ⟨j, hj, hbuilt, hholds, hall⟩ :=
      ih (.header hi hinsert) (hheld.insert hinsert) hentries' (hassoc ▸ hids) hrest
    refine ⟨j, ?_, hbuilt, ?_, ?_⟩
    · rw [List.foldlM_cons, hinsert]
      exact hj
    · rwa [List.append_cons]
    · rwa [hassoc]

/-- Parents first, headers of distinct identities can all be inserted. -/
theorem exists_ofHeaders (hzero : g.parent.isZero = true)
    (hids : ((g :: xs).map Header.id).Nodup) (hparents : ParentsFirst [g] xs) :
    ∃ i, ofHeaders g xs = .ok i ∧ i.Built ∧ i.Holds g xs ∧
      i.entries.toList.map Entry.header = g :: xs := by
  obtain ⟨hbuilt, hfirst, hothers⟩ := built_single hzero
  have hheld : (empty.add (.genesis g) []).Holds g [] := by
    refine ⟨hfirst, fun h hh => absurd hh List.not_mem_nil, ?_⟩
    intro id hknown
    by_contra hne
    rw [← hbuilt.stored.contains_iff, hothers id fun hid => hne (.inl hid)] at hknown
    cases hknown
  obtain ⟨i, hi, hrest⟩ := exists_foldlM_insert hbuilt hheld rfl hids hparents
  refine ⟨i, ?_, hrest⟩
  rw [ofHeaders, insertGenesis_empty hzero]
  exact hi

/-- Headers of distinct identities above a first block can be inserted in any order that puts
parents first, and two such orders lead to indexes that agree on every identity and on what happens
to a further header. A call that adds a header changes no answer about the old entries, and takes
the tip only with more work than the old tip has, so the tip is the first inserted of the entries
with the most work. -/
theorem insertion_order_irrelevant (hzero : g.parent.isZero = true)
    (hids : ((g :: xs).map Header.id).Nodup) (hperm : xs.Perm ys)
    (hxs : ParentsFirst [g] xs) (hys : ParentsFirst [g] ys) :
    ∃ i j, ofHeaders g xs = .ok i ∧ ofHeaders g ys = .ok j ∧ (∀ id, i.AgreeOn j id) ∧
      (∀ p h, answer (i.accept p h) = answer (j.accept p h)) ∧
      (∀ (c : Call) (k : ChainIndex), c.result i = .ok k →
        answer (c.result i) = .ok (some c.header.id) ∧
        (∀ id, i.ancestors id ≠ [] → i.AgreeOn k id) ∧
        ∃ t e, i.tip? = some t ∧ e.header = c.header ∧ k.entries = i.entries.push e ∧
          k.tip? = some (if t.work < e.work then e else t)) ∧
      i.entries.toList.map Entry.header = g :: xs ∧
      ∃ t, i.tip? = some t ∧ t.Leads i.entries.toList := by
  have hids' : ((g :: ys).map Header.id).Nodup :=
    ((hperm.cons g).map Header.id).nodup_iff.mp hids
  obtain ⟨i, hi, hbuilt, hheld, hentries⟩ := exists_ofHeaders hzero hids hxs
  obtain ⟨j, hj, hbuilt', hheld', -⟩ := exists_ofHeaders hzero hids' hys
  have hancestors := hheld.ancestors_eq hheld' fun h => hperm.mem_iff
  have hagree (id : Digest) : i.AgreeOn j id := .of_ancestors (hancestors id)
  obtain ⟨t, ht, hleads⟩ : ∃ t, i.tip? = some t ∧ t.Leads i.entries.toList := by
    obtain ⟨-, hnil⟩ | htip := hbuilt.leads_tip?
    · rw [hnil] at hentries
      cases hentries
    · exact htip
  refine ⟨i, j, hi, hj, hagree, ?_, ?_, hentries, t, ht, hleads⟩
  · intro p h
    apply answer_accept_congr (hagree h.parent)
    rw [hbuilt.stored.answer_insert, hbuilt'.stored.answer_insert, hancestors, hancestors]
  · intro c k hk
    obtain ⟨e, older, hheader, -, hnew, rfl⟩ := hbuilt.wellFormed.exists_add hk
    refine ⟨hbuilt.wellFormed.answer_result hk, ?_, t, e, ht, hheader, rfl, ?_⟩
    · intro id hknown
      exact .of_ancestors (KeptBy.of_add hnew id hknown).symm
    · rw [tip?_add, ht]
      exact (apply_ite some _ _ _).symm

/-- A first block with two children, the first of which has a child. -/
theorem nodup_id_fork :
    let g : Header := ⟨1, .zero, .zero, 60, ⟨0x1e0fffff⟩, 0⟩
    let a : Header := ⟨1, g.id, .zero, 120, ⟨0x1e0fffff⟩, 0⟩
    let b : Header := ⟨1, a.id, .zero, 180, ⟨0x1e0fffff⟩, 0⟩
    let c : Header := ⟨1, g.id, .zero, 121, ⟨0x1e0fffff⟩, 0⟩
    ([g, a, b, c].map Header.id).Nodup := by
  intro g a b c
  have hg := Header.numbers_id g rfl
  have ha := Header.numbers_id a hg
  have hb := Header.numbers_id b ha
  have hc := Header.numbers_id c hg
  apply List.Nodup.of_map fun d : Digest => Bytes.numbers d.toList
  simp only [List.map_cons, List.map_nil, hg, ha, hb, hc]
  decide +kernel

/-- The two branches of the fork, in either order. -/
theorem insertion_order_irrelevant_fork :
    let g : Header := ⟨1, .zero, .zero, 60, ⟨0x1e0fffff⟩, 0⟩
    let a : Header := ⟨1, g.id, .zero, 120, ⟨0x1e0fffff⟩, 0⟩
    let b : Header := ⟨1, a.id, .zero, 180, ⟨0x1e0fffff⟩, 0⟩
    let c : Header := ⟨1, g.id, .zero, 121, ⟨0x1e0fffff⟩, 0⟩
    g.parent.isZero = true ∧ ([g, a, b, c].map Header.id).Nodup ∧ [a, b, c].Perm [c, a, b] ∧
      ParentsFirst [g] [a, b, c] ∧ ParentsFirst [g] [c, a, b] ∧
      ∃ i j, ofHeaders g [a, b, c] = .ok i ∧ ofHeaders g [c, a, b] = .ok j ∧
        (∀ id, i.AgreeOn j id) ∧ i.entries.toList.map Entry.header = [g, a, b, c] ∧
        ∃ t, i.tip? = some t ∧ t.Leads i.entries.toList := by
  intro g a b c
  have hzero : g.parent.isZero = true := by decide
  have hids : ([g, a, b, c].map Header.id).Nodup := nodup_id_fork
  have hperm : [a, b, c].Perm [c, a, b] := @List.perm_append_comm _ [a, b] [c]
  have hxs : ParentsFirst [g] [a, b, c] :=
    ⟨⟨g, by simp, rfl⟩, ⟨a, by simp, rfl⟩, ⟨g, by simp, rfl⟩, trivial⟩
  have hys : ParentsFirst [g] [c, a, b] :=
    ⟨⟨g, by simp, rfl⟩, ⟨g, by simp, rfl⟩, ⟨a, by simp, rfl⟩, trivial⟩
  obtain ⟨i, j, hi, hj, hagree, -, -, hentries, htip⟩ :=
    insertion_order_irrelevant hzero hids hperm hxs hys
  exact ⟨hzero, hids, hperm, hxs, hys, i, j, hi, hj, hagree, hentries, htip⟩

end ChainIndex
end HeaderSync
