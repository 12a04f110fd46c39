import HeaderSync.Document
import HeaderSync.Header

/-!
# Headers as documents

A digest is a list of its 32 bytes.
-/

namespace HeaderSync

def Digest.toValue (d : Digest) : Value :=
  .list .inline (d.toList.map fun b => .integer b.toNat)

def Digest.ofValue? (v : Value) : Option Digest := do
  Digest.ofList? (← v.toList? Value.toUInt8?)

namespace Header

def fieldNames : List String := ["version", "prev_hash", "merkle_root", "time", "bits", "nonce"]

def toValue (h : Header) : Value :=
  .table .inline
    [("version", .integer h.version.toInt),
      ("prev_hash", h.parent.toValue),
      ("merkle_root", h.merkleRoot.toValue),
      ("time", .integer h.time.toNat),
      ("bits", .integer h.bits.word.toNat),
      ("nonce", .integer h.nonce.toNat)]

def ofValue? (d : Dialect) (v : Value) : Option Header := do
  let fields ← v.record? d fieldNames
  return {
    version := ← Value.required fields "version" Value.toInt32?
    parent := ← Value.required fields "prev_hash" Digest.ofValue?
    merkleRoot := ← Value.required fields "merkle_root" Digest.ofValue?
    time := ← Value.required fields "time" Value.toUInt32?
    bits := ⟨← Value.required fields "bits" Value.toUInt32?⟩
    nonce := ← Value.required fields "nonce" Value.toUInt32? }

end Header
end HeaderSync
