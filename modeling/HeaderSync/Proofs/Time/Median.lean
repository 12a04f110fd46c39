import HeaderSync.Time
import Mathlib.Data.List.GetD
import Mathlib.Data.List.Sort

/-!
# Medians by counting

The upper median reaches a time exactly if at most half of the times lie below it. So a median is
compared with a time by counting, without a look at the order of the times: a later time that takes
the place of any other one cannot lower the median, and six late times among the newest eleven raise
it.
-/

namespace HeaderSync

/-- In ascending times, the one at position `k` reaches `m` if at most `k` of them lie below `m`. -/
theorem le_getElem_iff_countP_le {ts : List Int} (hs : ts.Pairwise (· ≤ ·)) {k : Nat}
    (hk : k < ts.length) (m : Int) : m ≤ ts[k] ↔ ts.countP (· < m) ≤ k := by
  induction ts generalizing k with
  | nil => exact absurd hk (Nat.not_lt_zero k)
  | cons t ts ih =>
    obtain ⟨hfirst, hrest⟩ := List.pairwise_cons.mp hs
    by_cases ht : t < m
    · rw [List.countP_cons_of_pos (by simpa using ht)]
      cases k with
      | zero =>
        rw [List.getElem_cons_zero]
        omega
      | succ k =>
        rw [List.getElem_cons_succ, ih hrest]
        omega
    · -- Nothing lies below the first time, so nothing lies below `m`.
      have hnone : (t :: ts).countP (· < m) = 0 := by
        apply List.countP_eq_zero.mpr
        intro u hu
        rcases List.mem_cons.mp hu with rfl | hu
        · simpa using ht
        · have := hfirst u hu
          simp only [decide_eq_true_eq]
          omega
      have hall : m ≤ (t :: ts)[k] := by
        rcases List.mem_cons.mp (List.getElem_mem hk) with heq | hmem
        · omega
        · have := hfirst _ hmem
          omega
      rw [hnone]
      exact iff_of_true hall (Nat.zero_le k)

theorem le_medianTime_iff {times : List Int} (hne : times ≠ []) (m : Int) :
    m ≤ medianTime times ↔ times.countP (· < m) ≤ times.length / 2 := by
  have hmiddle : times.length / 2 < times.mergeSort.length := by
    rw [List.length_mergeSort]
    have hpos := List.length_pos_iff.mpr hne
    omega
  rw [medianTime, List.getD_eq_getElem _ _ hmiddle,
    le_getElem_iff_countP_le (List.pairwise_mergeSort' (· ≤ ·) times) hmiddle,
    (List.mergeSort_perm times _).countP_eq]

/-- The time in the middle of some times in ascending order, the upper one of two. -/
def IsUpperMedian (times : List Int) (m : Int) : Prop :=
  ∃ sorted : List Int, sorted.Perm times ∧ sorted.Pairwise (· ≤ ·) ∧
    sorted[times.length / 2]? = some m

/-- Times have a single upper median. -/
theorem isUpperMedian_iff {times : List Int} (hne : times ≠ []) {m : Int} :
    IsUpperMedian times m ↔ medianTime times = m := by
  have hmiddle : times.length / 2 < times.mergeSort.length := by
    rw [List.length_mergeSort]
    have hpos := List.length_pos_iff.mpr hne
    omega
  have hmedian : times.mergeSort[times.length / 2]? = some (medianTime times) := by
    rw [medianTime, List.getD_eq_getElem _ _ hmiddle, List.getElem?_eq_getElem hmiddle]
  have hperm : times.mergeSort.Perm times := List.mergeSort_perm times _
  have hascending := List.pairwise_mergeSort' (· ≤ ·) times
  constructor
  · rintro ⟨sorted, hsame, hsorted, hm⟩
    have heq : sorted = times.mergeSort :=
      (hsame.trans hperm.symm).eq_of_pairwise (fun _ _ _ _ => Int.le_antisymm) hsorted hascending
    rw [heq, hmedian] at hm
    exact Option.some.inj hm
  · rintro rfl
    exact ⟨times.mergeSort, hperm, hascending, hmedian⟩

theorem medianTime_eq_of_perm {times sorted : List Int} {m : Int} (hperm : sorted.Perm times)
    (hsorted : sorted.Pairwise (· ≤ ·)) (hm : sorted[times.length / 2]? = some m) :
    medianTime times = m := by
  refine (isUpperMedian_iff ?_).mp ⟨sorted, hperm, hsorted, hm⟩
  rintro rfl
  rw [hperm.eq_nil] at hm
  cases hm

def newestMedian (times : List Int) : Int := medianTime (times.take medianSpan)

variable {older : List Int} {m : Int}

theorem take_medianSpan_ne_nil (hne : older ≠ []) : older.take medianSpan ≠ [] := by
  rw [Ne, List.take_eq_nil_iff]
  rintro (hspan | hnil)
  · exact absurd hspan (by decide)
  · exact hne hnil

theorem newestMedian_nonneg (hne : older ≠ []) (h : ∀ t ∈ older, 0 ≤ t) : 0 ≤ newestMedian older := by
  rw [newestMedian, le_medianTime_iff (take_medianSpan_ne_nil hne)]
  have hnone : (older.take medianSpan).countP (· < 0) = 0 := by
    apply List.countP_eq_zero.mpr
    intro t ht
    have := h t (List.mem_of_mem_take ht)
    simp only [decide_eq_true_eq]
    omega
  omega

theorem newestMedian_le (hne : older ≠ []) (h : ∀ t ∈ older, t ≤ m) : newestMedian older ≤ m := by
  have hall : (older.take medianSpan).countP (· < m + 1) = (older.take medianSpan).length := by
    apply List.countP_eq_length.mpr
    intro t ht
    have := h t (List.mem_of_mem_take ht)
    simp only [decide_eq_true_eq]
    omega
  have hpos := List.length_pos_iff.mpr (take_medianSpan_ne_nil hne)
  have hnot := mt (le_medianTime_iff (take_medianSpan_ne_nil hne) (m + 1)).mp (by omega)
  rw [newestMedian]
  omega

/-- A time no earlier than the median keeps it from falling, whichever time it pushes out. -/
theorem newestMedian_le_cons (hne : older ≠ []) {t : Int} (ht : newestMedian older ≤ t) :
    newestMedian older ≤ newestMedian (t :: older) := by
  have hold := (le_medianTime_iff (take_medianSpan_ne_nil hne) _).mp (Int.le_refl _)
  rw [newestMedian, newestMedian, le_medianTime_iff (take_medianSpan_ne_nil (List.cons_ne_nil _ _))]
  rw [newestMedian] at ht
  generalize medianTime (older.take medianSpan) = m at ht hold ⊢
  have hsplit : (t :: older).take medianSpan = t :: older.take (medianSpan - 1) :=
    List.take_succ_cons
  have hfewer : (older.take (medianSpan - 1)).countP (· < m) ≤
      (older.take medianSpan).countP (· < m) :=
    (List.take_sublist_take_left (Nat.sub_le _ _)).countP_le
  rw [hsplit, List.countP_cons_of_neg (by simpa using ht)]
  have hlength : (older.take medianSpan).length ≤ (t :: older.take (medianSpan - 1)).length := by
    rw [List.length_cons, List.length_take, List.length_take]
    omega
  omega

/-- Six times are more than half of those behind a median. -/
theorem lt_newestMedian_append {newer : List Int} (hlength : newer.length = 6)
    (h : ∀ t ∈ newer, m < t) : m < newestMedian (newer ++ older) := by
  have hsplit : (newer ++ older).take medianSpan = newer ++ older.take 5 := by
    rw [List.take_append, hlength, List.take_of_length_le (by rw [hlength]; decide)]
    rfl
  have hne : newer ++ older.take 5 ≠ [] := by
    intro hnil
    rw [List.append_eq_nil_iff] at hnil
    rw [hnil.1] at hlength
    cases hlength
  have hnone : newer.countP (· < m + 1) = 0 := by
    apply List.countP_eq_zero.mpr
    intro t ht
    have := h t ht
    simp only [decide_eq_true_eq]
    omega
  have hmost : (older.take 5).countP (· < m + 1) ≤ (older.take 5).length := List.countP_le_length
  rw [newestMedian, hsplit, ← Int.add_one_le_iff, le_medianTime_iff hne, List.countP_append, hnone,
    List.length_append, hlength]
  rw [List.length_take] at hmost ⊢
  omega

end HeaderSync
