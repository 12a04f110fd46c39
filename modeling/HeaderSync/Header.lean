import HeaderSync.Compact
import HeaderSync.Digest

/-!
# Block headers

A header names its parent by digest. A run of linked headers can be kept without the parent digests,
since each of them is the identity of the header before.
-/

namespace HeaderSync

structure Header where
  version : Int32
  parent : Digest
  merkleRoot : Digest
  time : UInt32
  bits : Compact
  nonce : UInt32
deriving DecidableEq

structure CompressedHeader where
  version : Int32
  merkleRoot : Digest
  time : UInt32
  bits : Compact
  nonce : UInt32
deriving DecidableEq

namespace Header

def seconds (h : Header) : Int := h.time.toNat

def compress (h : Header) : CompressedHeader :=
  { version := h.version, merkleRoot := h.merkleRoot, time := h.time, bits := h.bits,
    nonce := h.nonce }

/-- Bit 8 of the version marks a header mined together with another chain. -/
def mergeMined (h : Header) : Bool := h.version &&& 0x100 ≠ 0

/-- The version without the merge-mining mark and the chain number 16. -/
def baseVersion (h : Header) : Int32 := (h.version &&& ~~~0x100) &&& ~~~0x100000

/-- The chain number in bits 16 to 20 of a merge-mined header's version, else zero. -/
def chainNumber (h : Header) : Int32 :=
  if h.mergeMined then (h.version &&& 0x1f0000) >>> 16 else 0

def isLegacy (h : Header) : Bool := h.version = 1

/-- A base version lies below the chain number, bits 28 to 30 aside. -/
def validBase (version : Int32) : Bool := version &&& ~~~0x70000000 < 0x10000

end Header

def CompressedHeader.restore (c : CompressedHeader) (parent : Digest) : Header :=
  { version := c.version, parent, merkleRoot := c.merkleRoot, time := c.time, bits := c.bits,
    nonce := c.nonce }

@[simp] theorem Header.restore_compress (h : Header) : h.compress.restore h.parent = h := rfl

@[simp] theorem CompressedHeader.compress_restore (c : CompressedHeader) (parent : Digest) :
    (c.restore parent).compress = c := rfl

end HeaderSync
