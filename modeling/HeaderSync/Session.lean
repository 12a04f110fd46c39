import HeaderSync.Session.Redownload

/-!
# A download session with one peer

A session takes a peer's headers in batches. Its first pass measures the chain and commits to it;
once that chain has enough work the second pass downloads it again and releases the headers. An
abort, or a chain that ends, finishes the session, and a finished session keeps nothing but a
report.
-/

namespace HeaderSync

structure Report where
  abort : Option Abort
  presyncWork : UInt256
  redownloadHeight : Nat
  redownloadWork : UInt256
deriving DecidableEq

inductive Stage where
  | presync (start : ChainStart) (pass : Presync)
  | redownload (start : ChainStart) (pass : Redownload)
  | final (report : Report)

structure Reply where
  success : Bool
  requestMore : Bool
  headers : List Header
deriving DecidableEq

def Reply.failure : Reply := ⟨false, false, []⟩

structure Session where
  rules : Rules
  stage : Stage

namespace Session

/-- The number of ancestors that a start should bring along to make the window warm. -/
def historyLength (p : Params) : Nat := p.window + 1 + medianSpan

def start (s : ChainStart) (minWork : UInt256) (params : Params) (config : Config) (now : Int)
    (words : List UInt64) (key : Digest) : Session :=
  let rules := Rules.start s minWork params config now words key
  ⟨rules, .presync s (Presync.start rules s)⟩

def isFinal (s : Session) : Bool :=
  match s.stage with
  | .final _ => true
  | _ => false

def abort? (s : Session) : Option Abort :=
  match s.stage with
  | .final report => report.abort
  | _ => none

def presyncHeight (s : Session) : Nat :=
  match s.stage with
  | .presync _ pass => pass.cursor.height
  | .redownload _ pass => pass.presyncHeight
  | .final _ => 0

def presyncWork (s : Session) : UInt256 :=
  match s.stage with
  | .presync _ pass => pass.cursor.work
  | .redownload _ pass => pass.presyncWork
  | .final report => report.presyncWork

def redownloadHeight (s : Session) : Nat :=
  match s.stage with
  | .presync _ _ => 0
  | .redownload _ pass => pass.cursor.height
  | .final report => report.redownloadHeight

def redownloadWork (s : Session) : UInt256 :=
  match s.stage with
  | .presync _ _ => 0
  | .redownload _ pass => pass.cursor.work
  | .final report => report.redownloadWork

def commitmentCount (s : Session) : Nat :=
  match s.stage with
  | .presync _ pass => pass.commitments.size
  | .redownload _ pass => pass.commitments.size
  | .final _ => 0

def bufferCount (s : Session) : Nat :=
  match s.stage with
  | .redownload _ pass => pass.buffer.size
  | _ => 0

def chainStart? (s : Session) : Option ChainStart :=
  match s.stage with
  | .presync start _ => some start
  | .redownload start _ => some start
  | .final _ => none

/-- Entries held in all lists of the session, those of its start included. -/
def retained (s : Session) : Nat :=
  s.commitmentCount + s.bufferCount +
    match s.chainStart? with
    | some start => start.history.length + start.locator.length
    | none => 0

def commitment (s : Session) (id : Digest) : Bool := s.rules.commitment id

def locator (s : Session) : List Digest :=
  match s.stage with
  | .presync start pass => pass.cursor.id :: start.locator
  | .redownload start pass => pass.cursor.id :: start.locator
  | .final _ => []

def finishPresync (s : Session) (pass : Presync) (abort : Abort) : Session :=
  { s with stage := .final ⟨some abort, pass.cursor.work, 0, 0⟩ }

def finishRedownload (s : Session) (pass : Redownload) (abort : Option Abort) : Session :=
  { s with stage := .final ⟨abort, pass.presyncWork, pass.cursor.height, pass.cursor.work⟩ }

/-- A batch in the first pass. Enough work starts the second pass; a batch that is not full ends a
chain without enough work. -/
def processPresync (s : Session) (start : ChainStart) (pass : Presync) (batch : List Header)
    (full : Bool) : Session × Except Retarget.Error Reply :=
  match pass.run s.rules batch with
  | (pass, .error e) => ({ s with stage := .presync start pass }, .error e)
  | (pass, .ok (some abort)) => (s.finishPresync pass abort, .ok .failure)
  | (pass, .ok none) =>
    if s.rules.minWork ≤ pass.cursor.work then
      ({ s with stage := .redownload start (Redownload.start s.rules start pass) },
        .ok ⟨true, true, []⟩)
    else if full then ({ s with stage := .presync start pass }, .ok ⟨true, true, []⟩)
    else (s.finishPresync pass ⟨.incompleteMessage, pass.cursor.height⟩, .ok ⟨true, false, []⟩)

def processRedownload (s : Session) (start : ChainStart) (pass : Redownload) (batch : List Header)
    (full : Bool) : Session × Except Retarget.Error Reply :=
  match pass.run s.rules batch with
  | ⟨pass, _, .error e⟩ => ({ s with stage := .redownload start pass }, .error e)
  | ⟨pass, _, .ok (some abort)⟩ => (s.finishRedownload pass abort, .ok .failure)
  | ⟨pass, released, .ok none⟩ =>
    if pass.buffer.isEmpty && pass.isReleasing s.rules then
      (s.finishRedownload pass none, .ok ⟨true, false, released⟩)
    else if full then ({ s with stage := .redownload start pass }, .ok ⟨true, true, released⟩)
    else
      (s.finishRedownload pass (some ⟨.incompleteMessage, pass.cursor.height⟩),
        .ok ⟨true, false, released⟩)

/-- Take one batch of headers; `full` tells whether the peer may have more. An empty batch and a
finished session change nothing. A batch with a header that cannot be judged has no reply, and only
the headers before that one are taken. -/
def process (s : Session) (batch : List Header) (full : Bool) :
    Session × Except Retarget.Error Reply :=
  if batch.isEmpty then (s, .ok .failure)
  else
    match s.stage with
    | .presync start pass => s.processPresync start pass batch full
    | .redownload start pass => s.processRedownload start pass batch full
    | .final _ => (s, .ok .failure)

end Session
end HeaderSync
