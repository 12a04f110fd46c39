import HeaderSync.Header.ProofOfWork
import HeaderSync.Window
import Std.Data.HashMap

/-!
# The tree of known headers

Each entry is kept under its identity together with its ancestors, newest first, so that entries
which share a parent share the tail. Entries are never removed, and every answer about an entry is
read off its ancestors.
-/

namespace HeaderSync

/-- A header with the values derived from its ancestors. -/
structure Entry where
  id : Digest
  header : Header
  height : Nat
  work : UInt256
  medianTime : Int
deriving DecidableEq

inductive IndexError where
  | genesisExists
  | genesisHasParent
  | alreadyKnown (id : Digest)
  | unknownParent (parent : Digest)
  | unknownHeader (id : Digest)
  | badDifficulty (height : Nat) (expected got : Compact)
  | timeTooOld (height : Nat) (time median : Int)
  | proof (cause : ProofError)
  | retarget (cause : Retarget.Error)
deriving DecidableEq

def IndexError.message : IndexError → String
  | .genesisExists => "genesis already inserted"
  | .genesisHasParent => "genesis header must have a zero prev_hash"
  | .alreadyKnown id => s!"header {id.text} already indexed"
  | .unknownParent parent => s!"parent {parent.text} not indexed"
  | .unknownHeader id => s!"header {id.text} not indexed"
  | .badDifficulty height expected got =>
    s!"bits {got.text} at height Height({height}), expected {expected.text}"
  | .timeTooOld height time median =>
    s!"time {time} at height Height({height}) not after median time past {median}"
  | .proof cause => s!"pow error: {cause.message}"
  | .retarget cause => s!"pow error: {cause.message}"

structure ChainStart where
  id : Digest
  header : Header
  height : Nat
  work : UInt256
  medianTime : Int
  /-- The newest part of the chain up to this entry, oldest first. -/
  history : List Stamp
  locator : List Digest
deriving DecidableEq

namespace Entry

def sample (e : Entry) : Retarget.Sample :=
  { height := e.height
    time := e.header.seconds
    bits := e.header.bits
    medianTime := e.medianTime }

def stamp (e : Entry) : Stamp := ⟨e.header.bits, e.header.seconds⟩

def genesis (h : Header) : Entry :=
  { id := h.id, header := h, height := 0, work := h.bits.work, medianTime := h.seconds }

def child (h : Header) (parent : Entry) (older : List Entry) : Entry :=
  { id := h.id
    header := h
    height := parent.height + 1
    work := parent.work.satAdd h.bits.work
    medianTime := HeaderSync.medianTime
      (h.seconds :: ((parent :: older).take (medianSpan - 1)).map (·.header.seconds)) }

end Entry

/-- The identities of some ancestors, newest first: the one at `height`, the one `step` below it,
and so on down to the first of all. The step doubles after each identity from the eleventh on;
`count` identities stand before these. -/
def locatorFrom (step count height : Nat) : List Entry → List Digest
  | [] => []
  | e :: older =>
    if e.height ≠ height then locatorFrom step count height older
    else if height = 0 then [e.id]
    else
      e.id :: locatorFrom (if 10 ≤ count then 2 * step else step) (count + 1) (height - step) older

structure ChainIndex where
  /-- The entries in order of insertion. -/
  entries : Array Entry
  /-- Each entry, under its identity, with its ancestors after it. -/
  lineages : Std.HashMap Digest (List Entry)

namespace ChainIndex

def empty : ChainIndex := ⟨.mk [], ∅⟩

def size (i : ChainIndex) : Nat := i.entries.size

def isEmpty (i : ChainIndex) : Bool := i.entries.isEmpty

/-- The entry with an identity and its ancestors, newest first; nothing for an unknown identity. -/
def ancestors (i : ChainIndex) (id : Digest) : List Entry := i.lineages.getD id []

def get? (i : ChainIndex) (id : Digest) : Option Entry := (i.ancestors id).head?

def parent? (i : ChainIndex) (id : Digest) : Option Entry := (i.ancestors id).tail.head?

def genesis? (i : ChainIndex) : Option Entry := i.entries[0]?

/-- The entry with the most work, of equals the one inserted first. -/
def tip? (i : ChainIndex) : Option Entry :=
  i.entries.foldl
    (fun best e =>
      match best with
      | none => some e
      | some b => if b.work < e.work then some e else some b)
    none

def medianTime? (i : ChainIndex) (id : Digest) : Option Int := (i.get? id).map Entry.medianTime

def ancestor? (i : ChainIndex) (id : Digest) (height : Nat) : Option Entry :=
  (i.ancestors id).find? (·.height = height)

def add (i : ChainIndex) (e : Entry) (older : List Entry) : ChainIndex :=
  ⟨i.entries.push e, i.lineages.insert e.id (e :: older)⟩

def insertGenesis (i : ChainIndex) (h : Header) : Except IndexError ChainIndex :=
  if !i.isEmpty then .error .genesisExists
  else if !h.parent.isZero then .error .genesisHasParent
  else .ok (i.add (Entry.genesis h) [])

/-- Add a header below its parent, without checking it against the rules. -/
def insert (i : ChainIndex) (h : Header) : Except IndexError ChainIndex :=
  if i.lineages.contains h.id then .error (.alreadyKnown h.id)
  else
    match i.ancestors h.parent with
    | [] => .error (.unknownParent h.parent)
    | parent :: older => .ok (i.add (Entry.child h parent older) (parent :: older))

def locator (i : ChainIndex) (id : Digest) : List Digest :=
  match i.get? id with
  | none => []
  | some e => locatorFrom 1 0 e.height (i.ancestors id)

def samples (i : ChainIndex) (id : Digest) (count : Nat) : List Retarget.Sample :=
  (((i.ancestors id).take count).map Entry.sample).reverse

/-- The number of samples that are enough for either rule. -/
def sampleCount (p : Params) : Nat := max (p.interval + 1) (p.window + 1)

def requiredAfter (i : ChainIndex) (p : Params) (id : Digest) (time : Int) :
    Except IndexError Compact :=
  if (i.get? id).isNone then .error (.unknownHeader id)
  else (Retarget.required p (i.samples id (sampleCount p)) time).mapError .retarget

def accept (i : ChainIndex) (p : Params) (h : Header) : Except IndexError ChainIndex := do
  match i.get? h.parent with
  | none => throw (.unknownParent h.parent)
  | some parent =>
    if h.seconds ≤ parent.medianTime then
      throw (.timeTooOld (parent.height + 1) h.seconds parent.medianTime)
    let expected ← i.requiredAfter p h.parent h.seconds
    if h.bits ≠ expected then
      throw (.badDifficulty (parent.height + 1) expected h.bits)
    (h.checkProof p).mapError .proof
    i.insert h

def chainStart? (i : ChainIndex) (id : Digest) (count : Nat) : Option ChainStart := do
  let e ← i.get? id
  return {
    id := e.id
    header := e.header
    height := e.height
    work := e.work
    medianTime := e.medianTime
    history := (((i.ancestors id).take count).map Entry.stamp).reverse
    locator := i.locator id }

end ChainIndex
end HeaderSync
