import HeaderSync.ChainIndex
import HeaderSync.Commitment
import HeaderSync.Draw
import HeaderSync.Session.Config

/-!
# The fixed rules of a session and its place in a chain

The rules are settled when a session starts. Both passes follow the peer's chain with a cursor, and
both refuse a header that does not link to the cursor or whose bits its window does not permit.
-/

namespace HeaderSync

structure Rules where
  params : Params
  /-- Work that the peer's chain must reach. -/
  minWork : UInt256
  /-- Every this many heights a header is committed to. -/
  period : Nat
  /-- The heights committed to, modulo the period. -/
  offset : Nat
  maxCommitments : Nat
  bufferSize : Nat
  key : Digest
deriving DecidableEq

inductive AbortCause where
  | nonContinuousChain
  | invalidDifficultyTransition
  | commitmentOverrun
  | commitmentMismatch
  | incompleteMessage
deriving DecidableEq

structure Abort where
  cause : AbortCause
  height : Nat
deriving DecidableEq

def AbortCause.text : AbortCause → String
  | .nonContinuousChain => "non-continuous headers"
  | .invalidDifficultyTransition => "invalid difficulty transition"
  | .commitmentOverrun => "commitment overrun"
  | .commitmentMismatch => "commitment mismatch"
  | .incompleteMessage => "incomplete headers message"

def Abort.message (a : Abort) : String := s!"{a.cause.text} at height {a.height}"

namespace Rules

/-- A random offset, and a bound from the fastest chain that time allows: six blocks per second from
the start's median time to the latest acceptable time. -/
def start (start : ChainStart) (minWork : UInt256) (params : Params) (config : Config) (now : Int)
    (words : List UInt64) (key : Digest) : Rules :=
  let period := max 1 config.commitmentPeriod.toNat
  let seconds := clampSeconds (clampSeconds (now - start.medianTime) + config.maxFutureTime.toInt)
  { params, minWork, period, key
    offset := drawBelow period words
    maxCommitments := min (6 * seconds.toNat) 0xffffffffffffffff / period
    bufferSize := config.bufferSize.toNat }

def commitsAt (r : Rules) (height : Nat) : Bool := height % r.period = r.offset

def commitment (r : Rules) (id : Digest) : Bool := commitmentBit r.key id

end Rules

structure Cursor where
  id : Digest
  height : Nat
  work : UInt256
  stamp : Stamp
  window : Window
deriving DecidableEq

namespace Cursor

def start (p : Params) (s : ChainStart) : Cursor :=
  { id := s.id
    height := s.height
    work := s.work
    stamp := ⟨s.header.bits, s.header.seconds⟩
    window := Window.ofHistory p s.history }

def refusal? (p : Params) (c : Cursor) (h : Header) : Except Retarget.Error (Option AbortCause) :=
  if h.parent ≠ c.id then .ok (some .nonContinuousChain)
  else do
    if ← c.window.permits p c.stamp ⟨h.bits, h.seconds⟩ (c.height + 1) then return none
    else return some .invalidDifficultyTransition

def advance (p : Params) (c : Cursor) (h : Header) : Cursor :=
  { id := h.id
    height := c.height + 1
    work := c.work.satAdd h.bits.work
    stamp := ⟨h.bits, h.seconds⟩
    window := c.window.accept p ⟨h.bits, h.seconds⟩ }

end Cursor
end HeaderSync
