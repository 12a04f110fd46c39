import HeaderSync.Proofs.ChainIndex.TruncatedHistory
import HeaderSync.Proofs.Header.Identity
import HeaderSync.Proofs.Retarget.IntervalRule

/-!
# The bits inside an interval

Inside an interval a late block gets the bits of the limit where that is allowed, and every other
block has those of the first block of its interval. The search over the exceptions cannot miss them:
it stops at the first block at the latest, and every block on the way has either its bits or the
limit's. That in turn follows from what was required of these blocks, one after the other.
-/

namespace HeaderSync
attribute [local irreducible] Header.id Compact.work

namespace Retarget
variable {p : Params} {inside rest older : List Sample} {first last s : Sample} {time : Int}
  {bits : Compact}

end Retarget

namespace Lineage
variable {p : Params} {inside rest older : List Entry} {first parent e : Entry}

theorem tail (hl : Lineage (e :: parent :: older)) : Lineage (parent :: older) := by
  cases hl with
  | child h link rest => exact rest

end Lineage

namespace ChainIndex
variable {p : Params} {i j : ChainIndex} {id : Digest} {e parent : Entry}

/-- The indexes that first blocks and accepted headers lead to. The proof of work and the time of a
header may also have been left unchecked. -/
inductive Grown (p : Params) : ChainIndex → Prop
  | empty : Grown p .empty
  | genesis {i j : ChainIndex} {h : Header} (hi : Grown p i) (hj : i.insertGenesis h = .ok j) :
      Grown p j
  | accepted {i j : ChainIndex} {h : Header} (hi : Grown p i) (hj : i.accept p h = .ok j) :
      Grown p j
  | required {i j : ChainIndex} {h : Header} (hi : Grown p i)
      (bits : i.requiredAfter p h.parent h.seconds = .ok h.bits) (hj : i.insert h = .ok j) :
      Grown p j

theorem Grown.built (hi : i.Grown p) : i.Built := by
  induction hi with
  | empty => exact .empty
  | genesis _ hj ih => exact .genesis ih hj
  | accepted _ hj ih => exact .header ih (required_of_accept hj).2
  | required _ _ hj ih => exact .header ih hj

end ChainIndex
end HeaderSync
