import HeaderSync.ChainIndex

/-!
# The tree of known headers in one array

The entries stand in an array in order of insertion. An identity leads to the position of its entry,
and an entry to the position of its parent, which lies before its own. So a walk from parent to
parent ends, and every answer about an entry is read off such a walk.
-/

namespace HeaderSync

/-- An entry with the position of its parent. -/
structure Node extends Entry where
  parent : Option Nat
deriving DecidableEq

structure Arena where
  nodes : Array Node
  positions : Std.HashMap Digest Nat
  parent_lt : ∀ {n m : Nat} {x : Node}, nodes[n]? = some x → x.parent = some m → m < n
  position_lt : ∀ {id : Digest} {n : Nat}, positions[id]? = some n → n < nodes.size

namespace Arena

def empty : Arena where
  nodes := #[]
  positions := ∅
  parent_lt hx := by simp at hx
  position_lt hn := by simp at hn

def size (a : Arena) : Nat := a.nodes.size

def isEmpty (a : Arena) : Bool := a.nodes.isEmpty

def get? (a : Arena) (id : Digest) : Option Node :=
  match a.positions[id]? with
  | none => none
  | some n => a.nodes[n]?

def genesis? (a : Arena) : Option Node := a.nodes[0]?

def tip? (a : Arena) : Option Node :=
  a.nodes.foldl
    (fun best x =>
      match best with
      | none => some x
      | some b => if b.work < x.work then some x else some b)
    none

def parent? (a : Arena) (x : Node) : Option Node :=
  match x.parent with
  | none => none
  | some m => a.nodes[m]?

def walk (a : Arena) (n : Nat) : List Node :=
  match _hx : a.nodes[n]? with
  | none => []
  | some x =>
    match _hm : x.parent with
    | none => [x]
    | some m => x :: a.walk m
termination_by n
decreasing_by exact a.parent_lt _hx _hm

def ancestors (a : Arena) (id : Digest) : List Node :=
  match a.positions[id]? with
  | none => []
  | some n => a.walk n

def medianTime? (a : Arena) (id : Digest) : Option Int := (a.get? id).map (·.medianTime)

def ancestor? (a : Arena) (id : Digest) (height : Nat) : Option Node :=
  match a.get? id with
  | none => none
  | some x => if x.height < height then none else (a.ancestors id).find? (·.height = height)

def push (a : Arena) (e : Entry) (parent : Option Nat) (hparent : ∀ m ∈ parent, m < a.nodes.size) :
    Arena where
  nodes := a.nodes.push ⟨e, parent⟩
  positions := a.positions.insert e.id a.nodes.size
  parent_lt {n m x} hx hm := by
    rw [Array.getElem?_push] at hx
    split at hx
    · cases hx
      next heq => exact heq ▸ hparent m hm
    · exact a.parent_lt hx hm
  position_lt {id n} hn := by
    rw [Std.HashMap.getElem?_insert] at hn
    rw [Array.size_push]
    split at hn
    · cases hn
      exact Nat.lt_succ_self _
    · exact Nat.lt_succ_of_lt (a.position_lt hn)

def insertGenesis (a : Arena) (h : Header) : Except IndexError Arena :=
  if !a.isEmpty then .error .genesisExists
  else if !h.parent.isZero then .error .genesisHasParent
  else .ok (a.push (Entry.genesis h) none nofun)

def insert (a : Arena) (h : Header) : Except IndexError Arena :=
  if a.positions.contains h.id then .error (.alreadyKnown h.id)
  else
    match hm : a.positions[h.parent]? with
    | none => .error (.unknownParent h.parent)
    | some m =>
      have hlt := a.position_lt hm
      let parent := a.nodes[m]
      let times := ((a.walk m).take (medianSpan - 1)).map (·.header.seconds)
      let e : Entry :=
        { id := h.id
          header := h
          height := parent.height + 1
          work := parent.work.satAdd h.bits.work
          medianTime := medianTime (h.seconds :: times) }
      .ok (a.push e (some m) (by simpa using hlt))

/-- The identities from an entry down to the first of all. The ancestor that comes next is looked up
again each time, first one below the last and, after the eleventh identity, ever further down. -/
def locatorFrom (a : Arena) (doublings count : Nat) (x : Node) : List Digest :=
  if x.height = 0 then [x.id]
  else
    match hy : (a.ancestors x.id).find? (·.height = x.height - 1 <<< doublings) with
    | none => [x.id]
    | some y => x.id :: a.locatorFrom (if 10 ≤ count then doublings + 1 else doublings) (count + 1) y
termination_by x.height
decreasing_by
  have hfound := List.find?_some hy
  have hheight : y.height = x.height - 1 <<< doublings := of_decide_eq_true hfound
  have hpos := Nat.two_pow_pos doublings
  rw [← Nat.one_shiftLeft] at hpos
  omega

def locator (a : Arena) (id : Digest) : List Digest :=
  match a.get? id with
  | none => []
  | some x => a.locatorFrom 0 0 x

def samples (a : Arena) (id : Digest) (count : Nat) : List Retarget.Sample :=
  (((a.ancestors id).take count).map (·.sample)).reverse

def requiredAfter (a : Arena) (p : Params) (id : Digest) (time : Int) :
    Except IndexError Compact :=
  if (a.get? id).isNone then .error (.unknownHeader id)
  else
    (Retarget.required p (a.samples id (ChainIndex.sampleCount p)) time).mapError .retarget

def accept (a : Arena) (p : Params) (h : Header) : Except IndexError Arena := do
  match a.get? h.parent with
  | none => throw (.unknownParent h.parent)
  | some parent =>
    if h.seconds ≤ parent.medianTime then
      throw (.timeTooOld (parent.height + 1) h.seconds parent.medianTime)
    let expected ← a.requiredAfter p h.parent h.seconds
    if h.bits ≠ expected then
      throw (.badDifficulty (parent.height + 1) expected h.bits)
    (h.checkProof p).mapError .proof
    a.insert h

def chainStart? (a : Arena) (id : Digest) (count : Nat) : Option ChainStart := do
  let x ← a.get? id
  return {
    id := x.id
    header := x.header
    height := x.height
    work := x.work
    medianTime := x.medianTime
    history := (((a.ancestors id).take count).map (·.stamp)).reverse
    locator := a.locator id }

end Arena
end HeaderSync
