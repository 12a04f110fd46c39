import HeaderSync.ChainIndex.Arena
import HeaderSync.Proofs.ChainIndex.Storage

/-!
# Ancestors by position and as lists

An arena finds ancestors by going from position to position, where an index keeps them as a list. A
call leaves both with the same entries, the same ancestors of every identity and the same known
identities, or both refuse it for the same reason. So the two give the same answers after any calls.
-/

namespace HeaderSync
attribute [local irreducible] Header.id Compact.work

namespace Arena
variable {a b : Arena} {i j : ChainIndex} {id : Digest} {n m : Nat} {x : Node} {e : Entry}
  {parent : Option Nat} {hparent : ∀ m ∈ parent, m < a.nodes.size}

/-! ### The walk -/

theorem walk_of_getElem? (hx : a.nodes[n]? = some x) :
    a.walk n = x :: x.parent.elim [] a.walk := by
  rw [walk]
  split
  next hnone =>
    rw [hx] at hnone
    cases hnone
  next y hy =>
    obtain rfl := Option.some.inj (hx.symm.trans hy)
    split
    next hnone => rw [hnone, Option.elim_none]
    next m hm => rw [hm, Option.elim_some]

theorem walk_of_size_le (hn : a.nodes.size ≤ n) : a.walk n = [] := by
  rw [walk]
  split
  next => rfl
  next y hy =>
    rw [Array.getElem?_eq_none hn] at hy
    cases hy

theorem head?_walk (a : Arena) (n : Nat) : (a.walk n).head? = a.nodes[n]? := by
  cases hx : a.nodes[n]? with
  | none => rw [walk_of_size_le (Array.getElem?_eq_none_iff.mp hx), List.head?_nil]
  | some x => rw [walk_of_getElem? hx, List.head?_cons]

theorem getElem?_push_of_lt (hn : n < a.nodes.size) :
    (a.push e parent hparent).nodes[n]? = a.nodes[n]? := by
  rw [push, Array.getElem?_push, if_neg (Nat.ne_of_lt hn)]

/-- A walk goes down, so it never meets an entry that was added later. -/
theorem walk_push_of_lt (hn : n < a.nodes.size) :
    (a.push e parent hparent).walk n = a.walk n := by
  induction n using Nat.strong_induction_on with
  | _ n ih =>
    have hx := Array.getElem?_eq_getElem hn
    rw [walk_of_getElem? hx, walk_of_getElem? ((getElem?_push_of_lt hn).trans hx)]
    cases hm : (a.nodes[n]).parent with
    | none => rfl
    | some m =>
      have hlt := a.parent_lt hx hm
      exact congrArg _ (ih m hlt (Nat.lt_trans hlt hn))

theorem walk_push_size :
    (a.push e parent hparent).walk a.nodes.size = ⟨e, parent⟩ :: parent.elim [] a.walk := by
  have hx : (a.push e parent hparent).nodes[a.nodes.size]? = some ⟨e, parent⟩ :=
    Array.getElem?_push_size
  rw [walk_of_getElem? hx]
  cases parent with
  | none => rfl
  | some m => exact congrArg _ (walk_push_of_lt (hparent m rfl))

theorem ancestors_push (id : Digest) :
    (a.push e parent hparent).ancestors id =
      if e.id = id then ⟨e, parent⟩ :: parent.elim [] a.walk else a.ancestors id := by
  have hlookup : (a.push e parent hparent).positions[id]? =
      if e.id = id then some a.nodes.size else a.positions[id]? := by
    rw [push, Std.HashMap.getElem?_insert]
    simp only [beq_iff_eq]
  unfold ancestors
  rw [hlookup]
  split_ifs with hid
  · exact walk_push_size
  · cases hn : a.positions[id]? with
    | none => rfl
    | some n => exact walk_push_of_lt (a.position_lt hn)

theorem head?_ancestors (a : Arena) (id : Digest) : (a.ancestors id).head? = a.get? id := by
  unfold ancestors get?
  cases a.positions[id]? with
  | none => rfl
  | some n => exact a.head?_walk n

/-! ### The same entries and ancestors -/

/-- The entries of an arena and their ancestors are those of an index. -/
structure Shows (a : Arena) (i : ChainIndex) : Prop where
  entries_eq : i.entries = a.nodes.map Node.toEntry
  ancestors_eq : ∀ id, i.ancestors id = (a.ancestors id).map Node.toEntry
  contains_eq : ∀ id, i.lineages.contains id = a.positions.contains id

namespace Shows

theorem empty : Arena.empty.Shows .empty where
  entries_eq := by simp [ChainIndex.empty, Arena.empty]
  ancestors_eq id := by
    rw [ChainIndex.ancestors_empty]
    simp [Arena.ancestors, Arena.empty]
  contains_eq id := by
    rw [ChainIndex.empty, Arena.empty, Std.HashMap.contains_empty, Std.HashMap.contains_empty]

theorem push (ha : a.Shows i) {older : List Entry}
    (holder : older = (parent.elim [] a.walk).map Node.toEntry) :
    (a.push e parent hparent).Shows (i.add e older) where
  entries_eq := by
    rw [ChainIndex.add, Arena.push, Array.map_push, ha.entries_eq]
  ancestors_eq id := by
    rw [ChainIndex.ancestors_add, ancestors_push, ha.ancestors_eq, holder]
    split_ifs <;> rfl
  contains_eq id := by
    rw [ChainIndex.contains_add, ha.contains_eq, Arena.push, Std.HashMap.contains_insert]

/-- What is found under an identity are the ancestors' first entries. -/
theorem get?_eq (ha : a.Shows i) (id : Digest) : i.get? id = (a.get? id).map Node.toEntry := by
  rw [ChainIndex.get?, ha.ancestors_eq, List.head?_map, head?_ancestors]

theorem samples_eq (ha : a.Shows i) (id : Digest) (count : Nat) :
    i.samples id count = a.samples id count := by
  rw [ChainIndex.samples, Arena.samples, ha.ancestors_eq, ← List.map_take, List.map_map]
  rfl

theorem requiredAfter_eq (ha : a.Shows i) (p : Params) (id : Digest) (time : Int) :
    i.requiredAfter p id time = a.requiredAfter p id time := by
  rw [ChainIndex.requiredAfter, Arena.requiredAfter, ha.get?_eq, ha.samples_eq, Option.isNone_map]

end Shows

/-- A call that leads to the same entries, or is refused for the same reason. -/
inductive Alike : Except IndexError Arena → Except IndexError ChainIndex → Prop
  | refused (error : IndexError) : Alike (.error error) (.error error)
  | added {b : Arena} {j : ChainIndex} (hb : b.Shows j) : Alike (.ok b) (.ok j)

namespace Shows

theorem isEmpty_eq (ha : a.Shows i) : i.isEmpty = a.isEmpty := by
  simp only [ChainIndex.isEmpty, Arena.isEmpty, ha.entries_eq, Array.isEmpty, Array.size_map]

theorem insertGenesis (ha : a.Shows i) (h : Header) :
    Alike (a.insertGenesis h) (i.insertGenesis h) := by
  unfold Arena.insertGenesis ChainIndex.insertGenesis
  rw [ha.isEmpty_eq]
  split_ifs
  · exact .refused _
  · exact .refused _
  · exact .added (ha.push rfl)

theorem insert (ha : a.Shows i) (h : Header) : Alike (a.insert h) (i.insert h) := by
  have hancestors := ha.ancestors_eq h.parent
  unfold Arena.insert ChainIndex.insert
  rw [ha.contains_eq]
  split_ifs with hknown
  · exact .refused _
  · split
    next hnone =>
      have hnil : i.ancestors h.parent = [] := by
        rw [hancestors, Arena.ancestors, hnone]
        rfl
      rw [hnil]
      exact .refused _
    next m hm =>
      have hlt := a.position_lt hm
      have hwalk := walk_of_getElem? (Array.getElem?_eq_getElem hlt)
      have hlist : i.ancestors h.parent = (a.walk m).map Node.toEntry := by
        rw [hancestors, Arena.ancestors, hm]
      have htimes : ((a.walk m).take (medianSpan - 1)).map (·.header.seconds) =
          (((a.walk m).map Node.toEntry).take (medianSpan - 1)).map (·.header.seconds) := by
        rw [← List.map_take, List.map_map]
        rfl
      rw [hlist, hwalk, List.map_cons]
      rw [hwalk, List.map_cons] at htimes
      dsimp only
      rw [htimes]
      apply Alike.added
      apply ha.push
      rw [Option.elim_some, hwalk, List.map_cons]

/-- Acceptance looks at nothing but the parent and the required bits before it inserts. -/
theorem accept (ha : a.Shows i) (p : Params) (h : Header) : Alike (a.accept p h) (i.accept p h) := by
  unfold Arena.accept ChainIndex.accept
  rw [ha.get?_eq, ha.requiredAfter_eq]
  cases a.get? h.parent with
  | none => exact .refused _
  | some parent =>
    dsimp only [Option.map_some]
    by_cases htime : h.seconds ≤ parent.medianTime
    · rw [if_pos htime, if_pos htime]
      exact .refused _
    · rw [if_neg htime, if_neg htime]
      cases a.requiredAfter p h.parent h.seconds with
      | error error => exact .refused error
      | ok expected =>
        by_cases hbits : h.bits ≠ expected
        · simp only [bind, Except.bind, if_pos hbits]
          exact .refused _
        · cases hproof : (h.checkProof p).mapError IndexError.proof with
          | error error =>
            simp only [bind, Except.bind, if_neg hbits]
            exact .refused error
          | ok u =>
            simp only [bind, Except.bind, if_neg hbits]
            exact ha.insert h

end Shows

/-! ### Calls -/

def result (a : Arena) (c : ChainIndex.Call) : Except IndexError Arena :=
  match c with
  | .genesis h => a.insertGenesis h
  | .insert h => a.insert h
  | .accept p h => a.accept p h

def perform (a : Arena) (c : ChainIndex.Call) : Arena :=
  match a.result c with
  | .ok b => b
  | .error _ => a

def performAll (a : Arena) (cs : List ChainIndex.Call) : Arena := cs.foldl perform a

namespace Shows

theorem result (ha : a.Shows i) (c : ChainIndex.Call) : Alike (a.result c) (c.result i) := by
  cases c with
  | genesis h => exact ha.insertGenesis h
  | insert h => exact ha.insert h
  | accept p h => exact ha.accept p h

theorem perform (ha : a.Shows i) (c : ChainIndex.Call) : (a.perform c).Shows (i.perform c) := by
  have hc := ha.result c
  unfold Arena.perform ChainIndex.perform
  generalize a.result c = x at hc
  generalize c.result i = y at hc
  cases hc with
  | refused error => exact ha
  | added hb => exact hb

theorem performAll (ha : a.Shows i) (cs : List ChainIndex.Call) :
    (a.performAll cs).Shows (i.performAll cs) := by
  induction cs generalizing a i with
  | nil => exact ha
  | cons c cs ih => exact ih (ha.perform c)

end Shows

/-! ### Queries -/

/-- Entries at other heights are passed over. -/
theorem locatorFrom_append {step count height : Nat} {newer older : List Entry}
    (hother : ∀ e ∈ newer, e.height ≠ height) :
    HeaderSync.locatorFrom step count height (newer ++ older) =
      HeaderSync.locatorFrom step count height older := by
  induction newer with
  | nil => rfl
  | cons e newer ih =>
    rw [List.cons_append, HeaderSync.locatorFrom, if_pos (hother e List.mem_cons_self)]
    exact ih fun x hx => hother x (List.mem_cons_of_mem e hx)

namespace Shows

theorem tip?_eq (ha : a.Shows i) : i.tip? = a.tip?.map Node.toEntry := by
  rw [ChainIndex.tip?, Arena.tip?, ha.entries_eq, Array.foldl_map]
  change Array.foldl _ (Option.map Node.toEntry none) _ = _
  refine Array.foldl_hom (Option.map Node.toEntry) fun best x => ?_
  cases best with
  | none => rfl
  | some t =>
    dsimp only [Option.map_some]
    split_ifs <;> rfl

theorem parent?_eq (ha : a.Shows i) (id : Digest) :
    i.parent? id = ((a.get? id).bind a.parent?).map Node.toEntry := by
  rw [ChainIndex.parent?, ha.ancestors_eq, ← List.map_tail, List.head?_map]
  congr 1
  unfold Arena.ancestors Arena.get?
  cases hn : a.positions[id]? with
  | none => rfl
  | some n =>
    obtain ⟨x, hx⟩ : ∃ x, a.nodes[n]? = some x :=
      ⟨_, Array.getElem?_eq_getElem (a.position_lt hn)⟩
    dsimp only
    rw [walk_of_getElem? hx, hx, List.tail_cons, Option.bind_some, Arena.parent?]
    cases x.parent with
    | none => rfl
    | some m => exact a.head?_walk m

theorem find?_ancestors (ha : a.Shows i) (id : Digest) (height : Nat) :
    (i.ancestors id).find? (·.height = height) =
      ((a.ancestors id).find? (·.height = height)).map Node.toEntry := by
  rw [ha.ancestors_eq, List.find?_map]
  rfl

theorem ancestor?_eq (ha : a.Shows i) (hi : i.WellFormed) (id : Digest) (height : Nat) :
    i.ancestor? id height = (a.ancestor? id height).map Node.toEntry := by
  have hget := ha.get?_eq id
  unfold Arena.ancestor?
  cases hx : a.get? id with
  | none =>
    rw [hx, Option.map_none] at hget
    rw [ChainIndex.ancestor?, List.head?_eq_none_iff.mp hget]
    rfl
  | some x =>
    rw [hx, Option.map_some] at hget
    obtain ⟨older, hlist⟩ := ChainIndex.get?_eq_some.mp hget
    dsimp only
    split_ifs with hlt
    · rw [Option.map_none, ChainIndex.ancestor?_eq_none_iff, hlist]
      intro e he hheight
      have hle := (hi.lineage hlist).2.mem_height_iff.mp ⟨e, he, hheight⟩
      exact Nat.not_lt.mpr hle hlt
    · exact ha.find?_ancestors id height

/-- Each identity is found again by the rest of the list below the one before. -/
theorem locatorFrom_eq (ha : a.Shows i) (hi : i.WellFormed) (doublings count : Nat) {x : Node}
    {older : List Entry} (hx : i.ancestors x.id = x.toEntry :: older) :
    HeaderSync.locatorFrom (1 <<< doublings) count x.height (x.toEntry :: older) =
      a.locatorFrom doublings count x := by
  fun_induction a.locatorFrom doublings count x generalizing older with
  | case1 doublings count x hzero =>
    rw [HeaderSync.locatorFrom, if_neg (not_not.mpr rfl), if_pos hzero]
  | case2 doublings count x hpos hnone =>
    have hother := ha.find?_ancestors x.id (x.height - 1 <<< doublings)
    rw [hx, hnone, Option.map_none, List.find?_eq_none] at hother
    rw [HeaderSync.locatorFrom, if_neg (not_not.mpr rfl), if_neg hpos, ← List.append_nil older,
      locatorFrom_append fun e he => by simpa using hother e (List.mem_cons_of_mem _ he)]
    rfl
  | case3 doublings count x hpos y hy ih =>
    have hheight : y.height = x.height - 1 <<< doublings := by simpa using List.find?_some hy
    have hdown : x.height ≠ x.height - 1 <<< doublings := by
      have hpos := Nat.two_pow_pos doublings
      rw [← Nat.one_shiftLeft] at hpos
      omega
    have hfound := ha.find?_ancestors x.id (x.height - 1 <<< doublings)
    rw [hx, hy, Option.map_some, List.find?_cons_of_neg (by simpa using hdown),
      List.find?_eq_some_iff_append] at hfound
    obtain ⟨-, newer, rest, rfl, hnewer⟩ := hfound
    rw [← List.cons_append] at hx
    have hstep : (if 10 ≤ count then 2 * 1 <<< doublings else 1 <<< doublings) =
        1 <<< (if 10 ≤ count then doublings + 1 else doublings) := by
      split_ifs
      · rw [Nat.shiftLeft_succ]
      · rfl
    simp only [dite_eq_ite] at ih
    rw [HeaderSync.locatorFrom, if_neg (not_not.mpr rfl), if_neg hpos, hstep,
      locatorFrom_append fun e he => by simpa using hnewer e he, ← hheight,
      ih (hi.ancestors_of_append hx)]

theorem locator_eq (ha : a.Shows i) (hi : i.WellFormed) (id : Digest) :
    i.locator id = a.locator id := by
  have hget := ha.get?_eq id
  unfold ChainIndex.locator Arena.locator
  cases hx : a.get? id with
  | none => rw [hget, hx, Option.map_none]
  | some x =>
    rw [hx, Option.map_some] at hget
    obtain ⟨older, hlist⟩ := ChainIndex.get?_eq_some.mp hget
    rw [hget, hlist]
    have hid : x.id = id := (hi.lineage hlist).1
    exact ha.locatorFrom_eq hi 0 0 (hid ▸ hlist)

theorem chainStart?_eq (ha : a.Shows i) (hi : i.WellFormed) (id : Digest) (count : Nat) :
    i.chainStart? id count = a.chainStart? id count := by
  unfold ChainIndex.chainStart? Arena.chainStart?
  rw [ha.get?_eq, ha.locator_eq hi, ha.ancestors_eq, ← List.map_take, List.map_map]
  cases a.get? id <;> rfl

end Shows

/-- Whether an arena answers as an index does, also to a further call. -/
structure Mirrors (a : Arena) (i : ChainIndex) : Prop where
  size_eq : i.size = a.size
  isEmpty_eq : i.isEmpty = a.isEmpty
  genesis?_eq : i.genesis? = a.genesis?.map Node.toEntry
  tip?_eq : i.tip? = a.tip?.map Node.toEntry
  get?_eq : ∀ id, i.get? id = (a.get? id).map Node.toEntry
  parent?_eq : ∀ id, i.parent? id = ((a.get? id).bind a.parent?).map Node.toEntry
  ancestors_eq : ∀ id, i.ancestors id = (a.ancestors id).map Node.toEntry
  ancestor?_eq : ∀ id height, i.ancestor? id height = (a.ancestor? id height).map Node.toEntry
  medianTime?_eq : ∀ id, i.medianTime? id = a.medianTime? id
  locator_eq : ∀ id, i.locator id = a.locator id
  samples_eq : ∀ id count, i.samples id count = a.samples id count
  requiredAfter_eq : ∀ p id time, i.requiredAfter p id time = a.requiredAfter p id time
  chainStart?_eq : ∀ id count, i.chainStart? id count = a.chainStart? id count
  result_alike : ∀ c, Alike (a.result c) (c.result i)

theorem Shows.mirrors (ha : a.Shows i) (hi : i.WellFormed) : a.Mirrors i where
  size_eq := by rw [ChainIndex.size, Arena.size, ha.entries_eq, Array.size_map]
  isEmpty_eq := ha.isEmpty_eq
  genesis?_eq := by rw [ChainIndex.genesis?, Arena.genesis?, ha.entries_eq, Array.getElem?_map]
  tip?_eq := ha.tip?_eq
  get?_eq := ha.get?_eq
  parent?_eq := ha.parent?_eq
  ancestors_eq := ha.ancestors_eq
  ancestor?_eq := ha.ancestor?_eq hi
  medianTime?_eq id := by
    rw [ChainIndex.medianTime?, Arena.medianTime?, ha.get?_eq, Option.map_map]
    rfl
  locator_eq := ha.locator_eq hi
  samples_eq := ha.samples_eq
  requiredAfter_eq := ha.requiredAfter_eq
  chainStart?_eq := ha.chainStart?_eq hi
  result_alike := ha.result

end Arena
end HeaderSync
