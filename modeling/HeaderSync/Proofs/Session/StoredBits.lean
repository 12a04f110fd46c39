import HeaderSync.Session.Rules
import Mathlib.Algebra.Order.Interval.Finset.SuccPred
import Mathlib.Data.Finset.Card
import Mathlib.Data.Nat.SuccPred
import Mathlib.Order.Interval.Finset.Nat

/-!
# The bits that a run of headers stores

Nothing but the order of the stored bits tells which header a bit belongs to. `storedBits` names
the bits that remain to be compared above a height, and the lemmas below say how they change when
a header is added at the end and when the height grows by one.
-/

namespace HeaderSync.Rules
variable (r : Rules)

/-- The bits of the headers at commitment heights above a height, in order, where the headers
follow the height `base`. -/
def storedBits (base : Nat) (hs : List Header) (above : Nat) : List Bool :=
  ((hs.zipIdx (base + 1)).filter fun x => above < x.2 && r.commitsAt x.2).map
    fun x => r.commitment x.1.id

@[simp] theorem storedBits_nil (base above : Nat) : r.storedBits base [] above = [] := rfl

theorem storedBits_cons (base above : Nat) (h : Header) (rest : List Header) :
    r.storedBits base (h :: rest) above =
      (if above < base + 1 && r.commitsAt (base + 1) then [r.commitment h.id] else []) ++
        r.storedBits (base + 1) rest above := by
  unfold storedBits
  rw [List.zipIdx_cons, List.filter_cons]
  split <;> rfl

theorem storedBits_append_singleton (base : Nat) (hs : List Header) (h : Header) :
    r.storedBits base (hs ++ [h]) base = r.storedBits base hs base ++
      if r.commitsAt (base + hs.length + 1) then [r.commitment h.id] else [] := by
  unfold storedBits
  have hlt : base < base + 1 + hs.length := by omega
  rw [List.zipIdx_append, List.filter_append, List.map_append, List.zipIdx_singleton,
    List.filter_singleton, show base + hs.length + 1 = base + 1 + hs.length by omega]
  cases r.commitsAt (base + 1 + hs.length) <;> simp [hlt]

/-- All heights of the run lie above `base`, so bounds up to there select the same bits. -/
theorem storedBits_of_le (base : Nat) {low high : Nat} (hs : List Header) (hl : low ≤ base)
    (hh : high ≤ base) : r.storedBits base hs low = r.storedBits base hs high := by
  induction hs generalizing base with
  | nil => rfl
  | cons h rest ih =>
    have h₁ : low < base + 1 := by omega
    have h₂ : high < base + 1 := by omega
    simp only [storedBits_cons, h₁, h₂, ih (base + 1) (by omega) (by omega)]

theorem storedBits_of_length_le {base above : Nat} {hs : List Header}
    (ha : base + hs.length ≤ above) : r.storedBits base hs above = [] := by
  induction hs generalizing base with
  | nil => rfl
  | cons h rest ih =>
    rw [List.length_cons] at ha
    have hhigh : ¬ above < base + 1 := by omega
    rw [storedBits_cons, ih (by omega)]
    simp [hhigh]

/-- Going up one height uses up the bit there, if the height is committed to and the run has one. -/
theorem storedBits_succ (base : Nat) (hs : List Header) (i : Nat) :
    r.storedBits base hs (base + i) =
      (if r.commitsAt (base + i + 1) then (hs[i]?.map fun h => r.commitment h.id).toList else []) ++
        r.storedBits base hs (base + i + 1) := by
  induction hs generalizing base i with
  | nil => simp
  | cons h rest ih =>
    rw [storedBits_cons, storedBits_cons]
    cases i with
    | zero =>
      have hlow : r.storedBits (base + 1) rest base = r.storedBits (base + 1) rest (base + 1) :=
        r.storedBits_of_le (base + 1) rest (by omega) (by omega)
      simp [hlow]
    | succ i =>
      have hrest := ih (base + 1) i
      rw [show base + 1 + i = base + (i + 1) by omega] at hrest
      have h₁ : ¬ base + (i + 1) < base + 1 := by omega
      have h₂ : ¬ base + (i + 1) + 1 < base + 1 := by omega
      simp only [h₁, h₂, decide_false, Bool.false_and, Bool.false_eq_true, if_false,
        List.nil_append, List.getElem?_cons_succ, hrest]

def committedHeights (base count : Nat) : Nat :=
  ((Finset.Ioc base (base + count)).filter fun n => n % r.period = r.offset).card

theorem committedHeights_succ (base count : Nat) :
    r.committedHeights base (count + 1) =
      r.committedHeights base count + if r.commitsAt (base + count + 1) then 1 else 0 := by
  have hI : Finset.Ioc base (base + (count + 1)) =
      insert (base + count + 1) (Finset.Ioc base (base + count)) := by
    rw [Finset.insert_Ioc_right_eq_Ioc_add_one (Nat.le_add_right _ _)]
    rfl
  unfold committedHeights
  rw [hI, Finset.filter_insert]
  by_cases hc : (base + count + 1) % r.period = r.offset
  · rw [if_pos hc, Finset.card_insert_of_notMem (by simp)]
    simp [commitsAt, hc]
  · rw [if_neg hc]
    simp [commitsAt, hc]

theorem committedHeights_mono (base : Nat) {low high : Nat} (hle : low ≤ high) :
    r.committedHeights base low ≤ r.committedHeights base high := by
  induction hle with
  | refl => exact Nat.le_refl _
  | step _ ih =>
    rw [committedHeights_succ]
    exact Nat.le_add_right_of_le ih

theorem committedHeights_le (base count : Nat) : r.committedHeights base count ≤ count := by
  have hle := Finset.card_filter_le (Finset.Ioc base (base + count)) (· % r.period = r.offset)
  rwa [Nat.card_Ioc, Nat.add_sub_cancel_left] at hle

/-- One bit is stored for each commitment height of the run. -/
theorem length_storedBits (base : Nat) (hs : List Header) :
    (r.storedBits base hs base).length = r.committedHeights base hs.length := by
  induction hs using List.reverseRecOn with
  | nil => simp [committedHeights]
  | append_singleton hs h ih =>
    rw [storedBits_append_singleton, List.length_append, ih, List.length_append,
      List.length_singleton, committedHeights_succ]
    by_cases hc : r.commitsAt (base + hs.length + 1) = true
    · rw [if_pos hc, if_pos hc, List.length_singleton]
    · rw [if_neg hc, if_neg hc, List.length_nil]

/-- At a commitment height the bits have run out exactly if the run does not reach it. -/
theorem length_storedBits_lt_iff {base count : Nat} (hs : List Header)
    (hc : r.commitsAt (base + count + 1) = true) :
    (r.storedBits base hs base).length < r.committedHeights base (count + 1) ↔
      hs.length ≤ count := by
  rw [length_storedBits]
  constructor
  · intro hlt
    by_contra hle
    have hmono := r.committedHeights_mono base (show count + 1 ≤ hs.length by omega)
    omega
  · intro hle
    have hmono := r.committedHeights_mono base hle
    have hsucc := r.committedHeights_succ base count
    rw [if_pos hc] at hsucc
    omega

end HeaderSync.Rules
