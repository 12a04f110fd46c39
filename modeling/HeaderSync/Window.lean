import HeaderSync.Retarget

/-!
# The sliding window of a candidate chain

For headers that are not indexed yet, a window keeps the newest bits, median times and times of the
chain under test, and judges whether the next header's bits are acceptable after them.
-/

namespace HeaderSync

structure Stamp where
  bits : Compact
  time : Int
deriving DecidableEq

/-- The recent past of a chain, each list newest first. -/
structure Window where
  bits : List Compact
  medians : List Int
  times : List Int
deriving DecidableEq

namespace Window

def slack : Nat := 4

def empty : Window := ⟨[], [], []⟩

def recordTime (w : Window) (time : Int) : Int × Window :=
  let times := (time :: w.times).take medianSpan
  (medianTime times, { w with times })

def push (p : Params) (w : Window) (bits : Compact) (median : Int) : Window :=
  { w with
    bits := (bits :: w.bits).take p.window
    medians := (median :: w.medians).take (p.window + 1) }

def accept (p : Params) (w : Window) (s : Stamp) : Window :=
  let (median, w) := w.recordTime s.time
  w.push p s.bits median

def ofHistory (p : Params) (history : List Stamp) : Window := history.foldl (accept p) empty

/-- Whether the window holds a full span: its targets, and one median more. -/
def isWarm (p : Params) (w : Window) : Bool :=
  p.window ≤ w.bits.length && p.window < w.medians.length

def expected (p : Params) (w : Window) : Except Retarget.Error (Option Compact) :=
  if !w.isWarm p then .ok none
  else do
    let mean ← Retarget.meanTarget p.window w.bits
    return some (Retarget.windowBits p mean (w.medians.headD 0) (w.medians.getLastD 0))

def isClose (expected observed : UInt256) : Bool :=
  expected.toNat - slack ≤ observed.toNat && observed.toNat ≤ expected.toNat + slack

/-- Whether a header may follow the one with the stamp `last` at a height. A cold window and the
heights just after the switch let everything pass. -/
def permits (p : Params) (w : Window) (last next : Stamp) (height : Nat) :
    Except Retarget.Error Bool :=
  if !w.isWarm p || height ≤ p.switchHeight.toNat + p.window then .ok true
  else if p.minDifficultyAfter (height - 1) &&
      Retarget.isLate p Retarget.windowGap last.time next.time then
    .ok (next.bits = p.limitBits)
  else do
    match ← w.expected p with
    | none => return true
    | some bits =>
      return isClose bits.target next.bits.target ||
        Retarget.permitted p height last.bits next.bits

end Window
end HeaderSync
