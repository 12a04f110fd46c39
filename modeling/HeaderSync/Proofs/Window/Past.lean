import HeaderSync.Params.Preset
import HeaderSync.Proofs.Time.Median
import HeaderSync.Proofs.UInt256.Sum
import HeaderSync.Proofs.Window.Recent
import Mathlib.Data.List.DropRight

/-!
# A window under any calls

Times and bits can enter a window apart from each other, and between them it can be cleared or
seeded. `Past` keeps all that has entered since, without a bound. Every call does to a window what it
does to the newest part of that record, so the answers of a window are answers about the record. Of
a history that it is seeded with, a window keeps nothing older than the span of its oldest median.
-/

namespace HeaderSync

/-- One more entry in front of a list, which gives up its oldest one if it is full. -/
def slide {α : Type} (capacity : Nat) (x : α) (xs : List α) : List α :=
  x :: if xs.length = capacity then xs.dropLast else xs

/-- Keeping the newest entries takes no more than trimming a list that is full. -/
theorem take_cons_eq_slide {α : Type} {capacity : Nat} (hpos : capacity ≠ 0) (x : α)
    (xs : List α) : (x :: xs).take capacity = slide capacity x (xs.take capacity) := by
  obtain ⟨n, rfl⟩ := Nat.exists_eq_add_one_of_ne_zero hpos
  have hlength : (xs.take (n + 1)).length = min (n + 1) xs.length := List.length_take
  rw [slide, List.take_succ_cons]
  split_ifs with hfull
  · have hmin : min n (n + 1) = n := by omega
    rw [List.dropLast_eq_take, hfull, Nat.add_sub_cancel, List.take_take, hmin]
  · rw [List.take_of_length_le (show xs.length ≤ n by omega),
      List.take_of_length_le (show xs.length ≤ n + 1 by omega)]

theorem getLastD_take_succ {α : Type} {xs : List α} {n : Nat} {x : α} (h : xs[n]? = some x)
    (default : α) : (xs.take (n + 1)).getLastD default = x := by
  rw [List.take_add_one, h]
  exact List.getLastD_concat

namespace Window

inductive Call where
  /-- Back to the window that holds nothing, as a new one does. -/
  | clear
  /-- A cleared window that accepts a history, oldest first. -/
  | seed (history : List Stamp)
  | recordTime (time : Int)
  | push (bits : Compact) (median : Int)
  | accept (s : Stamp)

def perform (p : Params) (w : Window) : Call → Window
  | .clear => empty
  | .seed history => ofHistory p history
  | .recordTime time => (w.recordTime time).2
  | .push bits median => w.push p bits median
  | .accept s => w.accept p s

def performAll (p : Params) (w : Window) (calls : List Call) : Window := calls.foldl (perform p) w

/-- All that has entered a window since it was last empty, newest first: times, and bits with the
median times pushed beside them. -/
structure Past where
  times : List Int
  pushed : List (Compact × Int)

namespace Past

def empty : Past := ⟨[], []⟩

def record (past : Past) (time : Int) : Past := { past with times := time :: past.times }

def push (past : Past) (bits : Compact) (median : Int) : Past :=
  { past with pushed := (bits, median) :: past.pushed }

/-- An accepted header's bits enter with the median of the newest times, its own among them. -/
def accept (past : Past) (s : Stamp) : Past :=
  (past.record s.time).push s.bits (newestMedian (s.time :: past.times))

def perform (past : Past) : Call → Past
  | .clear => empty
  | .seed history => history.foldl accept empty
  | .recordTime time => past.record time
  | .push bits median => past.push bits median
  | .accept s => past.accept s

def ofCalls (calls : List Call) : Past := calls.foldl perform empty

def window (p : Params) (past : Past) : Window :=
  recent p (past.pushed.map Prod.fst) (past.pushed.map Prod.snd) past.times

variable {p : Params} {past : Past}

/-! ### What a call does -/

theorem window_empty : empty.window p = Window.empty := by
  simp only [window, empty, Window.empty, recent, List.map_nil, List.take_nil]

theorem recordTime_window (time : Int) : (past.window p).recordTime time =
    (newestMedian (time :: past.times), (past.record time).window p) :=
  recordTime_recent p _ _ _ time

theorem push_window (bits : Compact) (median : Int) :
    (past.window p).push p bits median = (past.push bits median).window p :=
  push_recent p _ _ _ bits median

theorem accept_window (s : Stamp) : (past.window p).accept p s = (past.accept s).window p := by
  rw [Window.accept, recordTime_window]
  exact push_window s.bits _

theorem ofHistory_eq_window (history : List Stamp) :
    ofHistory p history = (history.foldl accept empty).window p := by
  rw [ofHistory, ← window_empty]
  exact List.foldl_hom (window p) fun past s => accept_window s

theorem perform_window (c : Call) : (past.window p).perform p c = (past.perform c).window p := by
  cases c with
  | clear => exact window_empty.symm
  | seed history => exact ofHistory_eq_window history
  | recordTime time => exact congrArg Prod.snd (recordTime_window time)
  | push bits median => exact push_window bits median
  | accept s => exact accept_window s

/-- After any calls the lists of a window are the newest part of the record. -/
theorem performAll_eq_window (calls : List Call) :
    performAll p Window.empty calls = (ofCalls calls).window p := by
  rw [performAll, ← window_empty]
  exact List.foldl_hom (window p) fun past c => perform_window c

theorem push_window_eq_slide (hw : p.window ≠ 0) (bits : Compact) (median : Int) :
    (past.window p).push p bits median =
      { past.window p with
        bits := slide p.window bits (past.window p).bits
        medians := slide (p.window + 1) median (past.window p).medians } := by
  rw [push_window]
  simp only [window, push, recent, List.map_cons, take_cons_eq_slide hw,
    take_cons_eq_slide (Nat.succ_ne_zero p.window)]

theorem recordTime_window_eq_slide (time : Int) : ((past.window p).recordTime time).2 =
    { past.window p with times := slide medianSpan time (past.window p).times } := by
  have hspan : medianSpan ≠ 0 := by decide
  rw [recordTime_window]
  simp only [window, record, recent, take_cons_eq_slide hspan]

/-! ### What a window answers -/

theorem isUpperMedian_recordTime (time : Int) :
    IsUpperMedian ((time :: past.times).take medianSpan) ((past.window p).recordTime time).1 := by
  rw [recordTime_window]
  exact (isUpperMedian_iff (take_medianSpan_ne_nil (List.cons_ne_nil time past.times))).mpr rfl

theorem isWarm_window : (past.window p).isWarm p = true ↔ p.window + 1 ≤ past.pushed.length := by
  simp only [window, recent, isWarm, Bool.and_eq_true, decide_eq_true_eq, List.length_take,
    List.length_map]
  omega

/-- A warm window averages the targets pushed last, and the time they took runs from the median
pushed before all of them to the last one. -/
theorem expected_window (hw : p.window ≠ 0) (hwarm : p.window < past.pushed.length) :
    ∃ newest oldest mean, past.pushed.head? = some newest ∧
      past.pushed[p.window]? = some oldest ∧
      mean.toNat = min ((past.pushed.take p.window).map (·.1.target.toNat)).sum
        ((1 <<< 256) - 1) / p.window ∧
      (past.window p).expected p =
        .ok (some (Retarget.windowBits p mean newest.2 oldest.2)) := by
  obtain ⟨newest, older, hpushed⟩ := List.exists_cons_of_length_pos (Nat.zero_lt_of_lt hwarm)
  obtain ⟨oldest, holdest⟩ : ∃ oldest, past.pushed[p.window]? = some oldest :=
    ⟨_, List.getElem?_eq_getElem hwarm⟩
  have hfirst : (past.window p).medians.headD 0 = newest.2 := by
    simp only [window, recent, hpushed, List.map_cons, List.take_succ_cons, List.headD_cons]
  -- One median more than targets is kept, so the last one stands before all that are averaged.
  have hlast : (past.window p).medians.getLastD 0 = oldest.2 :=
    getLastD_take_succ (by rw [List.getElem?_map, holdest, Option.map_some]) 0
  refine ⟨newest, oldest, (UInt256.sum ((past.window p).bits.map Compact.target)).divNat p.window,
    by rw [hpushed, List.head?_cons], holdest, ?_, ?_⟩
  · simp only [window, recent, UInt256.toNat_divNat, UInt256.toNat_sum, ← List.map_take,
      List.map_map]
    rfl
  · rw [expected_of_isWarm p (isWarm_window.mpr hwarm), hfirst, hlast, Retarget.meanTarget,
      if_neg hw]
    rfl

end Past

variable {p : Params}

/-- The end of a history seeds the same window. -/
theorem ofHistory_rtake (history : List Stamp) :
    ofHistory p (history.rtake (p.window + medianSpan)) = ofHistory p history := by
  rw [ofHistory_eq_after, ofHistory_eq_after, List.rtake_eq_reverse_take_reverse,
    List.reverse_reverse, after_take p _ (Nat.le_refl _)]

/-- After any calls a window that averages at least one target holds the newest part of what has
entered since it was last empty, and gives up an entry only to make room for another. It answers
with the median of the last eleven times, is warm once one more than the averaged targets was
pushed, and then reads the last median and the one pushed as many pushes before it as targets are
averaged. A seed leaves the same window, now and after further calls, as the end of its history
leaves in a new window. -/
theorem answers_from_recent_past (hw : p.window ≠ 0) (calls : List Call) :
    let w := performAll p empty calls
    let past := Past.ofCalls calls
    w = past.window p ∧
      (∀ bits median, w.push p bits median =
        { w with
          bits := slide p.window bits w.bits
          medians := slide (p.window + 1) median w.medians }) ∧
      (∀ time, (w.recordTime time).2 = { w with times := slide 11 time w.times } ∧
        IsUpperMedian ((time :: past.times).take 11) (w.recordTime time).1) ∧
      (w.isWarm p = true ↔ p.window + 1 ≤ past.pushed.length) ∧
      (w.isWarm p = true → ∃ newest oldest mean, past.pushed.head? = some newest ∧
        past.pushed[p.window]? = some oldest ∧
        mean.toNat = min ((past.pushed.take p.window).map (·.1.target.toNat)).sum
          ((1 <<< 256) - 1) / p.window ∧
        w.expected p = .ok (some (Retarget.windowBits p mean newest.2 oldest.2))) ∧
      ∀ history more, performAll p w (.seed history :: more) =
        performAll p empty (.seed (history.rtake (p.window + 11)) :: more) := by
  intro w past
  have hpast : w = past.window p := Past.performAll_eq_window calls
  rw [hpast]
  refine ⟨rfl, Past.push_window_eq_slide hw, fun time => ⟨?_, ?_⟩, Past.isWarm_window, ?_, ?_⟩
  · exact Past.recordTime_window_eq_slide time
  · exact Past.isUpperMedian_recordTime time
  · exact fun hwarm => Past.expected_window hw (Past.isWarm_window.mp hwarm)
  · intro history more
    have hseed : ofHistory p (history.rtake (p.window + 11)) = ofHistory p history :=
      ofHistory_rtake history
    rw [performAll, performAll, List.foldl_cons, List.foldl_cons, perform, perform, hseed]

/-- A window of a single target, with a time that comes without bits and bits that come with a
median of their own. -/
theorem answers_from_recent_past_unpaired :
    let p : Params := { Params.main with averagingWindow := 1 }
    let calls : List Call := [.push ⟨0x1c03fc00⟩ 7, .clear, .seed [⟨⟨0x1d00ffff⟩, 60⟩],
      .recordTime 90, .push ⟨0x1c03fc00⟩ 75, .accept ⟨⟨0x1d00ffff⟩, 120⟩]
    let w := performAll p empty calls
    p.window ≠ 0 ∧ w = ⟨[⟨0x1d00ffff⟩], [90, 75], [120, 90, 60]⟩ ∧ w.isWarm p = true ∧
      IsUpperMedian [150, 120, 90, 60] (w.recordTime 150).1 ∧
      (∃ mean, mean.toNat = 0xffff * 256 ^ 26 ∧
        w.expected p = .ok (some (Retarget.windowBits p mean 90 75))) ∧
      ∀ history more, performAll p w (.seed history :: more) =
        performAll p empty (.seed (history.rtake 12) :: more) := by
  intro p calls w
  have hw : p.window ≠ 0 := by decide
  have hpast : Past.ofCalls calls =
      ⟨[120, 90, 60], [(⟨0x1d00ffff⟩, 90), (⟨0x1c03fc00⟩, 75), (⟨0x1d00ffff⟩, 60)]⟩ := by
    have hlast : newestMedian [120, 90, 60] = 90 :=
      medianTime_eq_of_perm (show [60, 90, 120].Perm [120, 90, 60] by decide) (by decide) rfl
    have hfirst : newestMedian [60] = 60 :=
      medianTime_eq_of_perm (.refl [60]) (by decide) rfl
    change Past.mk [120, 90, 60] [(⟨0x1d00ffff⟩, newestMedian [120, 90, 60]), (⟨0x1c03fc00⟩, 75),
      (⟨0x1d00ffff⟩, newestMedian [60])] = _
    rw [hlast, hfirst]
  obtain ⟨hwindow, -, hmedian, hwarm, hexpected, hseed⟩ := answers_from_recent_past hw calls
  rw [hpast] at hwindow hmedian hwarm hexpected
  have hwarm' : w.isWarm p = true := hwarm.mpr (by decide)
  obtain ⟨newest, oldest, mean, hnewest, holdest, hmean, hbits⟩ := hexpected hwarm'
  have hnewest' : (⟨0x1d00ffff⟩, 90) = newest := Option.some.inj hnewest
  have holdest' : (⟨0x1c03fc00⟩, 75) = oldest := Option.some.inj holdest
  subst hnewest' holdest'
  exact ⟨hw, hwindow, hwarm', (hmedian 150).2, ⟨mean, hmean.trans (by decide +kernel), hbits⟩, hseed⟩

end Window
end HeaderSync
