import HeaderSync.Proofs.ChainIndex.Arena

/-!
# Positions in the array of entries

An identity leads to the one position of its entry, and an entry but for the first to an earlier
position, that of the header which it names as its parent. This is read off the ancestors, which are
those of an index that took the same calls. Every walk from parent to parent then ends at the first
entry, and passes each height on the way once.
-/

namespace HeaderSync
attribute [local irreducible] Header.id Compact.work

namespace Arena
variable {a b : Arena} {i : ChainIndex} {id : Digest} {n : Nat} {x : Node}

/-- How the entries of an arena, the positions under the identities and the positions of the parents
go together. -/
structure Placed (a : Arena) : Prop where
  nodup : (a.nodes.toList.map (·.id)).Nodup
  id_eq : ∀ x ∈ a.nodes, x.id = x.header.id
  position_iff : ∀ (id : Digest) (n : Nat),
    a.positions[id]? = some n ↔ ∃ x, a.nodes[n]? = some x ∧ x.id = id
  first : ∀ x, a.nodes[0]? = some x → x.header.parent.isZero = true ∧ x.parent = none ∧
    x.height = 0 ∧ a.ancestors x.id = [x]
  later : ∀ (n : Nat) (x : Node), a.nodes[n + 1]? = some x → ∃ m y, x.parent = some m ∧ m ≤ n ∧
    a.nodes[m]? = some y ∧ y.id = x.header.parent ∧ x.height = y.height + 1 ∧
    a.ancestors x.id = x :: a.ancestors y.id
  work : ∀ x ∈ a.nodes, x.work = UInt256.sum ((a.ancestors x.id).map (·.header.bits.work))
  medianTime : ∀ x ∈ a.nodes,
    IsUpperMedian (((a.ancestors x.id).take 11).map (·.header.seconds)) x.medianTime

namespace Shows

theorem getElem?_entries (ha : a.Shows i) (hx : a.nodes[n]? = some x) :
    i.entries[n]? = some x.toEntry := by
  rw [ha.entries_eq, Array.getElem?_map, hx, Option.map_some]

theorem nodup (ha : a.Shows i) (hi : i.Stored) : (a.nodes.toList.map (·.id)).Nodup := by
  have hnodup := hi.nodup
  rwa [ha.entries_eq, Array.toList_map, List.map_map] at hnodup

theorem position_iff (ha : a.Shows i) (hi : i.Built) :
    a.positions[id]? = some n ↔ ∃ x, a.nodes[n]? = some x ∧ x.id = id := by
  have hforth {n : Nat} (hn : a.positions[id]? = some n) :
      ∃ x, a.nodes[n]? = some x ∧ x.id = id := by
    have hx := Array.getElem?_eq_getElem (a.position_lt hn)
    have hget := ha.get?_eq id
    simp only [get?, hn, hx, Option.map_some] at hget
    exact ⟨_, hx, hi.wellFormed.id_of_get? hget⟩
  refine ⟨hforth, ?_⟩
  rintro ⟨x, hx, rfl⟩
  have hknown := (hi.represented.contains_iff x.id).mpr
    ⟨x.toEntry, Array.mem_of_getElem? (ha.getElem?_entries hx), rfl⟩
  rw [ha.contains_eq, Std.HashMap.contains_eq_isSome_getElem?, Option.isSome_iff_exists] at hknown
  obtain ⟨m, hm⟩ := hknown
  -- The entry that the identity leads to has it too, and no two entries do.
  obtain ⟨y, hy, hid⟩ := hforth hm
  have hlt : m < (a.nodes.toList.map (·.id)).length := by
    rw [List.length_map, Array.length_toList]
    exact a.position_lt hm
  have hsame : m = n := (List.getElem?_inj hlt (ha.nodup hi.stored)).mp (by
    rw [List.getElem?_map, List.getElem?_map, Array.getElem?_toList, Array.getElem?_toList, hx, hy,
      Option.map_some, Option.map_some, hid])
  rw [hm, hsame]

theorem ancestors_of_getElem? (ha : a.Shows i) (hi : i.Built) (hx : a.nodes[n]? = some x) :
    a.ancestors x.id = x :: x.parent.elim [] a.walk := by
  unfold Arena.ancestors
  rw [(ha.position_iff hi).mpr ⟨x, hx, rfl⟩]
  exact walk_of_getElem? hx

theorem placed (ha : a.Shows i) (hi : i.Built) : a.Placed where
  nodup := ha.nodup hi.stored
  id_eq x hx := by
    obtain ⟨n, hn⟩ := Array.mem_iff_getElem?.mp hx
    exact hi.represented.id_eq _ (Array.mem_of_getElem? (ha.getElem?_entries hn))
  position_iff id n := ha.position_iff hi
  first x hx := by
    obtain ⟨hzero, hheight, -⟩ := hi.represented.first _ (ha.getElem?_entries hx)
    have hroot : x.parent = none := by
      rw [Option.eq_none_iff_forall_not_mem]
      intro m hm
      exact Nat.not_lt_zero m (a.parent_lt hx hm)
    refine ⟨hzero, hroot, hheight, ?_⟩
    rw [ha.ancestors_of_getElem? hi hx, hroot, Option.elim_none]
  later n x hx := by
    obtain ⟨-, e, -, -, hparent, hid, hheight, -⟩ :=
      hi.represented.later n _ (ha.getElem?_entries hx)
    have hget : a.get? x.id = some x := by
      rw [← head?_ancestors, ha.ancestors_of_getElem? hi hx, List.head?_cons]
    rw [ha.parent?_eq, hget, Option.bind_some, Option.map_eq_some_iff] at hparent
    obtain ⟨y, hy, rfl⟩ := hparent
    cases hm : x.parent with
    | none =>
      rw [parent?, hm] at hy
      cases hy
    | some m =>
      rw [parent?, hm] at hy
      refine ⟨m, y, rfl, Nat.le_of_lt_succ (a.parent_lt hx hm), hy, hid, hheight, ?_⟩
      rw [ha.ancestors_of_getElem? hi hx, ha.ancestors_of_getElem? hi hy, hm, Option.elim_some,
        walk_of_getElem? hy]
  work x hx := by
    obtain ⟨n, hn⟩ := Array.mem_iff_getElem?.mp hx
    have hwork := hi.represented.work _ (Array.mem_of_getElem? (ha.getElem?_entries hn))
    rw [ha.ancestors_eq, List.map_map] at hwork
    exact hwork
  medianTime x hx := by
    obtain ⟨n, hn⟩ := Array.mem_iff_getElem?.mp hx
    have hmedian := hi.represented.medianTime _ (Array.mem_of_getElem? (ha.getElem?_entries hn))
    rw [ha.ancestors_eq, ← List.map_take, List.map_map] at hmedian
    exact hmedian

end Shows

namespace Placed

theorem exists_position (ha : a.Placed) (hx : a.get? id = some x) :
    ∃ n : Nat, a.nodes[n]? = some x ∧ x.id = id := by
  unfold get? at hx
  cases hn : a.positions[id]? with
  | none =>
    rw [hn] at hx
    cases hx
  | some n =>
    simp only [hn] at hx
    obtain ⟨y, hy, hid⟩ := (ha.position_iff id n).mp hn
    obtain rfl := Option.some.inj (hx.symm.trans hy)
    exact ⟨n, hx, hid⟩

/-- From parent to parent the height goes down by one, and the walk ends at the first entry. -/
theorem map_height (ha : a.Placed) (hx : a.nodes[n]? = some x) :
    (a.ancestors x.id).map (·.height) = (List.range (x.height + 1)).reverse ∧
      (a.ancestors x.id).getLast? = a.genesis? := by
  induction n using Nat.strong_induction_on generalizing x with
  | _ n ih =>
    cases n with
    | zero =>
      obtain ⟨-, -, hheight, hancestors⟩ := ha.first x hx
      rw [hancestors, hheight, genesis?, hx]
      exact ⟨by rw [List.map_singleton, hheight]; rfl, rfl⟩
    | succ n =>
      obtain ⟨m, y, -, hle, hy, -, hheight, hancestors⟩ := ha.later n x hx
      obtain ⟨hheights, hlast⟩ := ih m (Nat.lt_succ_of_le hle) hy
      rw [hancestors, List.map_cons, hheights, hheight]
      refine ⟨by rw [List.range_succ (n := y.height + 1), List.reverse_concat], ?_⟩
      have hne : a.ancestors y.id ≠ [] := by
        intro hnil
        rw [hnil, List.map_nil, eq_comm, List.reverse_eq_nil_iff] at hheights
        exact List.range_eq_nil.mp hheights |>.not_gt (Nat.succ_pos _)
      rw [List.getLast?_cons_of_ne_nil hne, hlast]

theorem nodup_height (ha : a.Placed) (hx : a.nodes[n]? = some x) :
    ((a.ancestors x.id).map (·.height)).Nodup := by
  rw [(ha.map_height hx).1, List.nodup_reverse]
  exact List.nodup_range

/-- There is one ancestor at each height up to an entry's own. -/
theorem exists_ancestor? (ha : a.Placed) (hx : a.get? id = some x) {height : Nat}
    (hle : height ≤ x.height) :
    ∃ y ∈ a.ancestors id, y.height = height ∧ a.ancestor? id height = some y ∧
      ∀ z ∈ a.ancestors id, z.height = height → z = y := by
  obtain ⟨n, hn, rfl⟩ := ha.exists_position hx
  obtain ⟨y, hy, rfl⟩ : ∃ y ∈ a.ancestors x.id, y.height = height := by
    rw [← List.mem_map, (ha.map_height hn).1, List.mem_reverse, List.mem_range]
    exact Nat.lt_succ_of_le hle
  have hfind {z : Node} (hz : z ∈ a.ancestors x.id) (hheight : z.height = y.height) :
      (a.ancestors x.id).find? (·.height = y.height) = some z :=
    (find?_eq_some_iff_of_nodup (ha.nodup_height hn)).mpr ⟨hz, hheight⟩
  refine ⟨y, hy, rfl, ?_, fun z hz hheight => ?_⟩
  · simp only [ancestor?, hx, if_neg (Nat.not_lt.mpr hle)]
    exact hfind hy rfl
  · exact Option.some.inj ((hfind hz hheight).symm.trans (hfind hy rfl))

end Placed

theorem insert_eq_push {h : Header} (hb : a.insert h = .ok b) :
    ∃ e parent hparent, e.header = h ∧ b = a.push e parent hparent := by
  unfold insert at hb
  split_ifs at hb
  split at hb
  · cases hb
  · cases hb
    exact ⟨_, _, _, rfl, rfl⟩

theorem insert_of_accept {p : Params} {h : Header} (hb : a.accept p h = .ok b) :
    a.insert h = .ok b := by
  unfold accept at hb
  cases hparent : a.get? h.parent with
  | none => simp [hparent, throw, throwThe, MonadExceptOf.throw] at hb
  | some parent =>
    simp only [hparent] at hb
    split_ifs at hb with htime
    · cases hb
    · cases hbits : a.requiredAfter p h.parent h.seconds with
      | error e => simp [hbits, bind, Except.bind] at hb
      | ok bits =>
        simp only [hbits, bind, Except.bind] at hb
        split_ifs at hb
        cases hproof : h.checkProof p with
        | error e => simp [hproof, Except.mapError] at hb
        | ok u => simpa [hproof, Except.mapError] using hb

theorem result_eq_push {c : ChainIndex.Call} (hb : a.result c = .ok b) :
    ∃ e parent hparent, e.header = c.header ∧ b = a.push e parent hparent := by
  cases c with
  | genesis h =>
    change a.insertGenesis h = .ok b at hb
    unfold insertGenesis at hb
    split_ifs at hb
    cases hb
    exact ⟨_, _, _, rfl, rfl⟩
  | insert h => exact insert_eq_push hb
  | accept p h => exact insert_eq_push (insert_of_accept hb)

/-- After any calls the positions under the identities are those of their entries, and each entry
but the first names an earlier one as its parent by position and by identity. So each walk from
parent to parent leads down to the first entry one height at a time. A refused call changes nothing,
and the index that keeps ancestors as lists gives the same answers throughout. -/
theorem placed_after_calls (cs : List ChainIndex.Call) :
    let a := empty.performAll cs
    let i := ChainIndex.empty.performAll cs
    a.Placed ∧ a.Mirrors i ∧ i.Represented ∧
      (∀ id, a.get? id = none → a.ancestors id = [] ∧ ∀ height, a.ancestor? id height = none) ∧
      (∀ id x, a.get? id = some x →
        (a.ancestors id).length = x.height + 1 ∧
        (a.ancestors id).map (·.height) = (List.range (x.height + 1)).reverse ∧
        (a.ancestors id).getLast? = a.genesis? ∧
        (∀ height ≤ x.height, ∃ y ∈ a.ancestors id, y.height = height ∧
          a.ancestor? id height = some y ∧ ∀ z ∈ a.ancestors id, z.height = height → z = y) ∧
        ∀ height, x.height < height → a.ancestor? id height = none) ∧
      (∀ c error, a.result c = .error error → a.perform c = a ∧ i.perform c = i) ∧
      ∀ c b, a.result c = .ok b → a.perform c = b ∧
        ∃ x, x.header = c.header ∧ b.nodes = a.nodes.push x := by
  intro a i
  have hi : i.Built := ChainIndex.Built.empty.performAll cs
  have hshows : a.Shows i := Shows.empty.performAll cs
  have ha : a.Placed := hshows.placed hi
  refine ⟨ha, hshows.mirrors hi.wellFormed, hi.represented, ?_, ?_, ?_, ?_⟩
  · intro id hnone
    have hnil : a.ancestors id = [] := List.head?_eq_none_iff.mp ((a.head?_ancestors id).trans hnone)
    refine ⟨hnil, fun height => ?_⟩
    rw [ancestor?, hnone]
  · intro id x hx
    obtain ⟨n, hn, rfl⟩ := ha.exists_position hx
    obtain ⟨hheights, hlast⟩ := ha.map_height hn
    have hlength := congrArg List.length hheights
    rw [List.length_map, List.length_reverse, List.length_range] at hlength
    refine ⟨hlength, hheights, hlast, fun height => ha.exists_ancestor? hx, ?_⟩
    intro height hlt
    simp only [ancestor?, hx, if_pos hlt]
  · intro c error hc
    refine ⟨by rw [perform, hc], ?_⟩
    have halike := hshows.result c
    rw [hc] at halike
    generalize hr : c.result i = r at halike
    cases halike
    rw [ChainIndex.perform, hr]
  · intro c b hc
    obtain ⟨e, parent, hparent, hheader, rfl⟩ := result_eq_push hc
    exact ⟨by rw [perform, hc], ⟨e, parent⟩, hheader, rfl⟩

end Arena
end HeaderSync
