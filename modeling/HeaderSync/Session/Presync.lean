import HeaderSync.Queue
import HeaderSync.Session.Rules

/-!
# The first pass

The first pass walks the peer's chain, adds up its work and stores one bit per commitment height.
It keeps no headers.
-/

namespace HeaderSync

structure Presync where
  cursor : Cursor
  commitments : Queue Bool

namespace Presync

def start (r : Rules) (s : ChainStart) : Presync := ⟨Cursor.start r.params s, .empty⟩

/-- The pass after a header that was not refused, or with the bits used up, the reason to abort. -/
def store (r : Rules) (p : Presync) (h : Header) : Presync × Option AbortCause :=
  if !r.commitsAt (p.cursor.height + 1) then
    ({ p with cursor := p.cursor.advance r.params h }, none)
  else if r.maxCommitments ≤ p.commitments.size then (p, some .commitmentOverrun)
  else (⟨p.cursor.advance r.params h, p.commitments.push (r.commitment h.id)⟩, none)

/-- The pass after one header; a header that gives a reason to abort leaves it as it was. -/
def step (r : Rules) (p : Presync) (h : Header) :
    Except Retarget.Error (Presync × Option AbortCause) := do
  match ← p.cursor.refusal? r.params h with
  | some cause => return (p, some cause)
  | none => return p.store r h

/-- The pass after a batch, up to the first header that aborts it or that cannot be judged. -/
def run (r : Rules) (p : Presync) : List Header → Presync × Except Retarget.Error (Option Abort)
  | [] => (p, .ok none)
  | h :: rest =>
    match p.step r h with
    | .error e => (p, .error e)
    | .ok (p', some cause) => (p', .ok (some ⟨cause, p.cursor.height + 1⟩))
    | .ok (p', none) => run r p' rest

end Presync
end HeaderSync
