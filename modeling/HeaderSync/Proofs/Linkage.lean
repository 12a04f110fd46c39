import HeaderSync.Header.Identity

/-!
# Linked runs of headers

A run of headers is linked from a digest if the first one names that digest as its parent and every
other one names the identity of the header before. The work of a run is added up onto a base. A
buffer that dropped the parents is relinked from the digest below its first header.
-/

namespace HeaderSync

/-- The digest that a header after the run must name as its parent. -/
def tipId (parent : Digest) : List Header → Digest
  | [] => parent
  | h :: rest => tipId h.id rest

def LinkedFrom (parent : Digest) : List Header → Prop
  | [] => True
  | h :: rest => h.parent = parent ∧ LinkedFrom h.id rest

/-- The headers of a buffer, each restored below the one before it. -/
def relink (parent : Digest) : List CompressedHeader → List Header
  | [] => []
  | c :: cs => c.restore parent :: relink (c.restore parent).id cs

/-- The saturating sum of a base and the work of every header. -/
def totalWork (base : UInt256) (hs : List Header) : UInt256 :=
  hs.foldl (fun w h => w.satAdd h.bits.work) base

theorem tipId_append (parent : Digest) (xs ys : List Header) :
    tipId parent (xs ++ ys) = tipId (tipId parent xs) ys := by
  induction xs generalizing parent with
  | nil => rfl
  | cons h rest ih => simp only [List.cons_append, tipId, ih]

theorem linkedFrom_append (parent : Digest) (xs ys : List Header) :
    LinkedFrom parent (xs ++ ys) ↔ LinkedFrom parent xs ∧ LinkedFrom (tipId parent xs) ys := by
  induction xs generalizing parent with
  | nil => simp [LinkedFrom, tipId]
  | cons h rest ih => simp only [List.cons_append, LinkedFrom, tipId, ih, and_assoc]

theorem LinkedFrom.of_prefix {parent : Digest} {xs ys : List Header} (h : LinkedFrom parent ys)
    (hp : xs <+: ys) : LinkedFrom parent xs := by
  obtain ⟨zs, rfl⟩ := hp
  exact ((linkedFrom_append parent xs zs).mp h).1

@[simp] theorem length_relink (parent : Digest) (cs : List CompressedHeader) :
    (relink parent cs).length = cs.length := by
  induction cs generalizing parent with
  | nil => rfl
  | cons c cs ih => simp [relink, ih]

theorem relink_append (parent : Digest) (xs ys : List CompressedHeader) :
    relink parent (xs ++ ys) =
      relink parent xs ++ relink (tipId parent (relink parent xs)) ys := by
  induction xs generalizing parent with
  | nil => rfl
  | cons c cs ih => simp only [List.cons_append, relink, tipId, ih]

theorem linkedFrom_relink (parent : Digest) (cs : List CompressedHeader) :
    LinkedFrom parent (relink parent cs) := by
  induction cs generalizing parent with
  | nil => trivial
  | cons c cs ih => exact ⟨rfl, ih _⟩

theorem totalWork_append (base : UInt256) (xs ys : List Header) :
    totalWork base (xs ++ ys) = totalWork (totalWork base xs) ys := List.foldl_append

theorem le_totalWork (base : UInt256) (hs : List Header) : base ≤ totalWork base hs := by
  induction hs generalizing base with
  | nil => exact Nat.le_refl _
  | cons h rest ih =>
    have hstep : base ≤ base.satAdd h.bits.work := by
      have hlt := base.toNat_le
      rw [UInt256.le_iff, UInt256.toNat_satAdd]
      omega
    exact Nat.le_trans hstep (ih _)

theorem totalWork_mono (base : UInt256) {xs ys : List Header} (hp : xs <+: ys) :
    totalWork base xs ≤ totalWork base ys := by
  obtain ⟨zs, rfl⟩ := hp
  rw [totalWork_append]
  exact le_totalWork _ _

end HeaderSync
