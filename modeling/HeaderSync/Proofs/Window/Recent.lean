import HeaderSync.Window
import Mathlib.Data.List.TakeDrop

/-!
# What a window remembers of a chain

The three lists of a window are the newest parts of the bits, the median times and the times of
the chain it has seen, so a window is a function of that chain. A chain without its oldest headers
has other medians at its end, but `medianSpan` headers later these no longer show.
-/

namespace HeaderSync

/-- The median time at each of some times, newest first. -/
def recentMedians : List Int → List Int
  | [] => []
  | time :: older => medianTime ((time :: older).take medianSpan) :: recentMedians older

@[simp] theorem length_recentMedians (times : List Int) :
    (recentMedians times).length = times.length := by
  induction times with
  | nil => rfl
  | cons time older ih => simp [recentMedians, ih]

/-- Times beyond the span of the last median do not change the newest medians. -/
theorem take_recentMedians {count n : Nat} (times : List Int) (hn : count + medianSpan ≤ n + 1) :
    (recentMedians (times.take n)).take count = (recentMedians times).take count := by
  induction times generalizing count n with
  | nil => simp
  | cons time older ih =>
    have hpos : 0 < medianSpan := by decide
    cases count with
    | zero => rfl
    | succ count =>
      obtain ⟨m, rfl⟩ := Nat.exists_eq_succ_of_ne_zero (show n ≠ 0 by omega)
      have hhead : min medianSpan (m + 1) = medianSpan := by omega
      have hspan : (time :: older.take m).take medianSpan = (time :: older).take medianSpan := by
        rw [← List.take_succ_cons, List.take_take, hhead]
      simp only [List.take_succ_cons, recentMedians, hspan, ih (show count + _ ≤ m + 1 by omega)]

theorem take_cons_take {α : Type} (n : Nat) (x : α) (xs : List α) :
    (x :: xs.take n).take n = (x :: xs).take n := by
  cases n with
  | zero => rfl
  | succ n =>
    have hmin : min n (n + 1) = n := by omega
    rw [List.take_succ_cons, List.take_succ_cons, List.take_take, hmin]

namespace Window
variable (p : Params)

/-- The window that keeps the newest of some bits, median times and times, all newest first. -/
def recent (bits : List Compact) (medians times : List Int) : Window :=
  ⟨bits.take p.window, medians.take (p.window + 1), times.take medianSpan⟩

/-- The window at the end of a chain, newest first. -/
def after (past : List Stamp) : Window :=
  recent p (past.map Stamp.bits) (recentMedians (past.map Stamp.time)) (past.map Stamp.time)

theorem empty_eq_after : empty = after p [] := by
  simp only [empty, after, recent, recentMedians, List.map_nil, List.take_nil]

theorem recordTime_recent (bits : List Compact) (medians times : List Int) (time : Int) :
    (recent p bits medians times).recordTime time =
      (medianTime ((time :: times).take medianSpan), recent p bits medians (time :: times)) := by
  simp only [recordTime, recent, take_cons_take]

theorem push_recent (bits : List Compact) (medians times : List Int) (b : Compact) (m : Int) :
    (recent p bits medians times).push p b m = recent p (b :: bits) (m :: medians) times := by
  simp only [push, recent, take_cons_take]

theorem accept_after (past : List Stamp) (s : Stamp) :
    (after p past).accept p s = after p (s :: past) := by
  simp only [accept, after, recordTime_recent, push_recent, List.map_cons, recentMedians]

theorem foldl_accept_after (past hs : List Stamp) :
    hs.foldl (accept p) (after p past) = after p (hs.reverse ++ past) := by
  induction hs generalizing past with
  | nil => rfl
  | cons s hs ih =>
    rw [List.foldl_cons, accept_after, ih, List.reverse_cons, List.append_assoc,
      List.singleton_append]

theorem ofHistory_eq_after (history : List Stamp) :
    ofHistory p history = after p history.reverse := by
  rw [ofHistory, empty_eq_after p, foldl_accept_after, List.append_nil]

theorem after_take {n : Nat} (past : List Stamp) (hn : p.window + medianSpan ≤ n) :
    after p (past.take n) = after p past := by
  have hbits : min p.window n = p.window := by omega
  have htimes : min medianSpan n = medianSpan := by omega
  have hmedians : (recentMedians ((past.map Stamp.time).take n)).take (p.window + 1) =
      (recentMedians (past.map Stamp.time)).take (p.window + 1) :=
    take_recentMedians _ (by omega)
  simp only [after, recent, List.map_take, List.take_take, hbits, htimes, hmedians]

theorem isWarm_after (past : List Stamp) :
    (after p past).isWarm p = decide (p.window < past.length) := by
  simp only [isWarm, after, recent, List.length_take, List.length_map, length_recentMedians,
    ← Bool.decide_and]
  exact decide_eq_decide.mpr (by omega)

theorem expected_of_isWarm {w : Window} (hw : w.isWarm p = true) :
    w.expected p = (Retarget.meanTarget p.window w.bits).map fun mean =>
      some (Retarget.windowBits p mean (w.medians.headD 0) (w.medians.getLastD 0)) := by
  rw [expected, hw]
  cases Retarget.meanTarget p.window w.bits <;> rfl

end Window
end HeaderSync
