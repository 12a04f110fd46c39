import HeaderSync.Session.Presync

/-!
# The second pass

The second pass walks the chain again and compares each committed height with the stored bit, until
enough work has been seen once more. Headers are held back in a buffer without their parents; the
oldest leave it when it grows too long, and all leave it once the work is there.
-/

namespace HeaderSync

structure Redownload where
  cursor : Cursor
  /-- The stored bits that have not been compared yet. -/
  commitments : Queue Bool
  buffer : Queue CompressedHeader
  /-- The parent of the oldest buffered header. -/
  base : Digest
  presyncHeight : Nat
  presyncWork : UInt256

namespace Redownload

def start (r : Rules) (s : ChainStart) (p : Presync) : Redownload :=
  { cursor := Cursor.start r.params s
    commitments := p.commitments
    buffer := .empty
    base := s.id
    presyncHeight := p.cursor.height
    presyncWork := p.cursor.work }

/-- Whether the work is there, so that bits are no longer compared and nothing is held back. -/
def isReleasing (r : Rules) (d : Redownload) : Bool := r.minWork ≤ d.cursor.work

def weigh (d : Redownload) (h : Header) : Redownload :=
  { d with cursor := { d.cursor with work := d.cursor.work.satAdd h.bits.work } }

def hold (r : Rules) (d : Redownload) (h : Header) : Redownload :=
  { d with cursor := d.cursor.advance r.params h, buffer := d.buffer.push h.compress }

/-- The pass after a header that was not refused. A header at a commitment height must have the next
stored bit, unless the work is there with it; one that fails has been weighed all the same. -/
def store (r : Rules) (d : Redownload) (h : Header) : Redownload × Option AbortCause :=
  if (d.weigh h).isReleasing r || !r.commitsAt (d.cursor.height + 1) then (d.hold r h, none)
  else
    match d.commitments.pop? with
    | none => (d.weigh h, some .commitmentOverrun)
    | some (bit, commitments) =>
      if r.commitment h.id = bit then (({ d with commitments }).hold r h, none)
      else (d.weigh h, some .commitmentMismatch)

def step (r : Rules) (d : Redownload) (h : Header) :
    Except Retarget.Error (Redownload × Option AbortCause) := do
  match ← d.cursor.refusal? r.params h with
  | some cause => return (d, some cause)
  | none => return d.store r h

def release (d : Redownload) : (count : Nat) → List Header × Redownload
  | 0 => ([], d)
  | count + 1 =>
    match d.buffer.pop? with
    | none => ([], d)
    | some (c, buffer) =>
      let h := c.restore d.base
      let (headers, d) := release { d with buffer, base := h.id } count
      (h :: headers, d)

def releasable (r : Rules) (d : Redownload) : Nat :=
  if d.isReleasing r then d.buffer.size else d.buffer.size - r.bufferSize

/-- What a batch leads to: the pass up to the first header that aborts it or that cannot be judged,
and the headers that left the buffer. -/
structure Outcome where
  pass : Redownload
  released : List Header
  ending : Except Retarget.Error (Option Abort)

def run (r : Rules) (d : Redownload) : List Header → Outcome
  | [] => ⟨d, [], .ok none⟩
  | h :: rest =>
    match d.step r h with
    | .error e => ⟨d, [], .error e⟩
    | .ok (d', some cause) => ⟨d', [], .ok (some ⟨cause, d.cursor.height + 1⟩)⟩
    | .ok (d', none) =>
      let (ready, d') := d'.release (d'.releasable r)
      let o := run r d' rest
      { o with released := ready ++ o.released }

end Redownload
end HeaderSync
