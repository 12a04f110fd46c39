import HeaderSync.Header

/-!
# The 80 bytes of a header

Version, parent, Merkle root, time, bits and nonce follow each other; numbers are little-endian.
Reading reports the first field that the bytes do not hold in full, or the bytes left over.
-/

namespace HeaderSync

inductive DecodeError where
  | unexpectedEnd (start needed remaining : Nat)
  | trailingBytes (start remaining : Nat)
deriving DecidableEq

def DecodeError.message : DecodeError → String
  | .unexpectedEnd start needed remaining =>
    s!"unexpected eof at {start} (needed {needed}, remaining {remaining})"
  | .trailingBytes start remaining => s!"{remaining} trailing bytes at {start}"

namespace Header
open Bytes

def encodedLength : Nat := 80

def encode (h : Header) : List UInt8 :=
  little 4 h.version.toUInt32.toNat ++ h.parent.toList ++ h.merkleRoot.toList ++
    little 4 h.time.toNat ++ little 4 h.bits.word.toNat ++ little 4 h.nonce.toNat

def readWord (start : Nat) (bytes : List UInt8) : Except DecodeError (UInt32 × List UInt8) :=
  if bytes.length < 4 then .error (.unexpectedEnd start 4 bytes.length)
  else .ok (UInt32.ofNat (ofLittle (bytes.take 4)), bytes.drop 4)

def readDigest (start : Nat) (bytes : List UInt8) : Except DecodeError (Digest × List UInt8) :=
  match Digest.ofList? (bytes.take 32) with
  | some d => .ok (d, bytes.drop 32)
  | none => .error (.unexpectedEnd start 32 bytes.length)

def decode (bytes : List UInt8) : Except DecodeError Header := do
  let (version, rest) ← readWord 0 bytes
  let (parent, rest) ← readDigest 4 rest
  let (merkleRoot, rest) ← readDigest 36 rest
  let (time, rest) ← readWord 68 rest
  let (bits, rest) ← readWord 72 rest
  let (nonce, rest) ← readWord 76 rest
  if rest.isEmpty then
    return { version := version.toInt32, parent, merkleRoot, time, bits := ⟨bits⟩, nonce }
  else throw (.trailingBytes 80 rest.length)

@[simp] theorem length_encode (h : Header) : h.encode.length = encodedLength := by
  simp [encode, encodedLength]

end Header
end HeaderSync
