import HeaderSync.Header.Identity
import HeaderSync.Params
import HeaderSync.Text.Hex

/-!
# Proof of work

A header's proof hash, read as a little-endian number, must not exceed its target, and the target
must not exceed the easiest one.
-/

namespace HeaderSync

inductive ProofError where
  | invalidTarget (bits : Compact)
  | targetAboveLimit (bits : Compact)
  | hashAboveTarget (hash : Digest) (bits : Compact)
deriving DecidableEq

def Compact.text (c : Compact) : String := Text.hexWord c.word

def ProofError.message : ProofError → String
  | .invalidTarget bits => s!"compact target {bits.text} is negative, zero or overflows"
  | .targetAboveLimit bits => s!"compact target {bits.text} is easier than pow_limit"
  | .hashAboveTarget hash bits => s!"pow hash {hash.text} does not meet target {bits.text}"

def checkProof (p : Params) (hash : Digest) (bits : Compact) : Except ProofError Unit :=
  if !bits.isValid then .error (.invalidTarget bits)
  else if p.powLimit < bits.target then .error (.targetAboveLimit bits)
  else if bits.target < hash.toUInt256 then .error (.hashAboveTarget hash bits)
  else .ok ()

def Header.checkProof (p : Params) (h : Header) : Except ProofError Unit :=
  HeaderSync.checkProof p h.proofHash h.bits

structure BatchError where
  index : Nat
  cause : ProofError
deriving DecidableEq

def BatchError.message (e : BatchError) : String :=
  s!"header {e.index} in batch fails proof of work: {e.cause.message}"

def checkProofsFrom (p : Params) (index : Nat) : List Header → Except BatchError Unit
  | [] => .ok ()
  | h :: rest =>
    match h.checkProof p with
    | .ok () => checkProofsFrom p (index + 1) rest
    | .error cause => .error ⟨index, cause⟩

def checkProofs (p : Params) (headers : List Header) : Except BatchError Unit :=
  checkProofsFrom p 0 headers

end HeaderSync
