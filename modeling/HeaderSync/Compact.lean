import HeaderSync.UInt256

/-!
# Compact targets

A compact word holds a target as a size byte, a sign bit and a mantissa of 23 bits: the mantissa
times `256 ^ (size - 3)`. Reading never fails; it reports a set sign and a value beyond 256 bits.
Writing keeps the three leading bytes.
-/

namespace HeaderSync

structure Compact where
  word : UInt32
deriving DecidableEq

namespace Compact

def size (c : Compact) : Nat := c.word.toNat >>> 24

def mantissa (c : Compact) : Nat := c.word.toNat % 0x800000

def signed (c : Compact) : Bool := c.word.toNat.testBit 23

/-- The mantissa less the digits that a size below three shifts out. -/
def digits (c : Compact) : Nat :=
  if c.size ≤ 3 then c.mantissa >>> (8 * (3 - c.size)) else c.mantissa

/-- The target, its low 256 bits where it has more. -/
def target (c : Compact) : UInt256 :=
  if c.size ≤ 3 then .wrap c.digits else .wrap (c.digits <<< (8 * (c.size - 3)))

def isNegative (c : Compact) : Bool := c.digits ≠ 0 && c.signed

/-- A mantissa too wide for its size: one byte may sit at size 34, two at 33, three at 32. -/
def overflows (c : Compact) : Bool :=
  c.digits ≠ 0 &&
    (34 < c.size || (0xff < c.digits && 33 < c.size) || (0xffff < c.digits && 32 < c.size))

def isValid (c : Compact) : Bool := !c.isNegative && !c.overflows && c.target ≠ 0

def pack (size mantissa : Nat) : Compact := ⟨UInt32.ofNat ((size <<< 24) + mantissa)⟩

def leading (value : UInt256) (size : Nat) : Nat :=
  if size ≤ 3 then value.toNat <<< (8 * (3 - size)) else value.toNat >>> (8 * (size - 3))

/-- The compact form of a value, rounded down. A leading byte from `0x80` up would set the sign bit,
so the mantissa then gives up its last byte. -/
def ofTarget (value : UInt256) : Compact :=
  let size := value.byteLength
  let mantissa := leading value size
  if 0x800000 ≤ mantissa then pack (size + 1) (mantissa >>> 8) else pack size mantissa

def round (value : UInt256) : UInt256 := (ofTarget value).target

/-- Expected number of hashes to meet the target, `2 ^ 256 / (target + 1)`; none for an invalid
word. The quotient is taken of the complement, which has 256 bits. -/
def work (c : Compact) : UInt256 :=
  if c.isValid then
    .clamp ((UInt256.greatest.toNat - c.target.toNat) / (c.target.toNat + 1) + 1)
  else 0

end Compact
end HeaderSync
