import HeaderSync.Params

/-!
# Retargeting

The target of the next block follows from its ancestors. Up to the switch height the interval rule
scales the last target once per interval by the time the interval took; above it the window rule
scales the mean of the recent targets at every block. Either result is at most the limit and is
rounded to a compact word.
-/

namespace HeaderSync.Retarget

structure Sample where
  height : Nat
  time : Int
  bits : Compact
  medianTime : Int
deriving DecidableEq

inductive Error where
  | insufficientHistory (height : Nat)
  | emptyWindow
deriving DecidableEq

def Error.message : Error → String
  | .insufficientHistory height => s!"retarget needs history back to height {height}"
  | .emptyWindow => "no targets to average"

/-- Under the interval rule a block later than this many spacings may use the limit. -/
def intervalGap : Nat := 4

def windowGap : Nat := 6

def isLate (p : Params) (spacings : Nat) (last next : Int) : Bool :=
  last + p.targetSpacing.toInt * spacings < next

def intervalBits (p : Params) (last : Sample) (firstTime : Int) : Compact :=
  let actual := clampSeconds (last.time - firstTime)
  let bounds := p.legacyBounds (last.height + 1)
  let timespan := if actual < bounds.1 then bounds.1
    else if bounds.2 < actual then bounds.2 else actual
  .ofTarget (min (last.bits.target.mulDiv timespan.toNat (max 1 p.targetTimespan.toInt).toNat)
    p.powLimit)

/-- A mean target scaled by the window's timespan between two median times. Only a quarter of the
deviation counts, and the result is held to the adjustment bounds. -/
def windowBits (p : Params) (mean : UInt256) (lastMedian firstMedian : Int) : Compact :=
  if p.windowTimespan ≤ 0 then p.limitBits
  else
    let span := clampSeconds (lastMedian - firstMedian)
    let damped := p.windowTimespan + (span - p.windowTimespan).tdiv 4
    let timespan := min p.maxWindowTimespan (max p.minWindowTimespan damped)
    .ofTarget (min (.clamp (mean.toNat / p.windowTimespan.toNat * timespan.toNat)) p.powLimit)

/-- The floor of the mean of `count` targets, whose sum saturates. -/
def meanTarget (count : Nat) (bits : List Compact) : Except Error UInt256 :=
  if count = 0 then .error .emptyWindow
  else .ok ((UInt256.sum (bits.map Compact.target)).divNat count)

def splitAt? (prior : List Sample) (height : Nat) : Option (Sample × List Sample) := do
  let oldest ← prior.head?
  if height < oldest.height then none
  else
    match prior.drop (height - oldest.height) with
    | s :: later => if s.height = height then some (s, later) else none
    | [] => none

/-- The newest bits that are not an exception at the limit: the search goes back from `s` through
the older samples and ends at the latest at the start of an interval. -/
def settledBits (p : Params) (s : Sample) : (older : List Sample) → Except Error Compact
  | [] =>
    if s.height = 0 ∨ s.height % p.interval = 0 ∨ s.bits ≠ p.limitBits then .ok s.bits
    else .error (.insufficientHistory (s.height - 1))
  | t :: older =>
    if s.height = 0 ∨ s.height % p.interval = 0 ∨ s.bits ≠ p.limitBits then .ok s.bits
    else settledBits p t older

def requiredByInterval (p : Params) (prior : List Sample) (last : Sample) (time : Int) :
    Except Error Compact :=
  if (last.height + 1) % p.interval ≠ 0 then
    if !p.allowMinDifficulty then .ok last.bits
    else if isLate p intervalGap last.time time then .ok p.limitBits
    else settledBits p last prior.dropLast.reverse
  else
    let back := if last.height + 1 = p.interval then p.interval - 1 else p.interval
    match splitAt? prior (last.height - back) with
    | some (first, _) => .ok (intervalBits p last first.time)
    | none => .error (.insufficientHistory (last.height - back))

def requiredByWindow (p : Params) (prior : List Sample) (last : Sample) (time : Int) :
    Except Error Compact :=
  if p.noRetargeting then .ok last.bits
  else if p.minDifficultyAfter last.height && isLate p windowGap last.time time then
    .ok p.limitBits
  else if last.height < p.window then .ok p.limitBits
  else
    match splitAt? prior (last.height - p.window) with
    | none => .error (.insufficientHistory (last.height - p.window))
    | some (first, later) => do
      let mean ← meanTarget p.window (later.map Sample.bits)
      return windowBits p mean last.medianTime first.medianTime

/-- The bits of a block at the given time whose ancestors are `prior`, a run of consecutive heights,
oldest first. No ancestors means the first block of a chain. -/
def required (p : Params) (prior : List Sample) (time : Int) : Except Error Compact :=
  match prior.getLast? with
  | none => .ok p.limitBits
  | some last =>
    if last.height ≤ p.switchHeight.toNat then requiredByInterval p prior last time
    else requiredByWindow p prior last time

def scaledTarget (p : Params) (old : Compact) (timespan : Nat) : UInt256 :=
  Compact.round (min (old.target.mulDiv timespan (max 1 p.targetTimespan.toInt).toNat) p.powLimit)

/-- Whether bits may follow each other at a height: inside an interval only equal ones, at its start
a target between a quarter and four times the old one. -/
def permitted (p : Params) (height : Nat) (old new : Compact) : Bool :=
  if p.allowMinDifficulty then true
  else if height % p.interval ≠ 0 then old = new
  else
    let timespan := (max 1 p.targetTimespan.toInt).toNat
    new.target ≤ scaledTarget p old (min (4 * timespan) 0xffffffffffffffff) &&
      scaledTarget p old (timespan / 4) ≤ new.target

end HeaderSync.Retarget
