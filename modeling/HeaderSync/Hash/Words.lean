import HeaderSync.Digest

/-!
# Words of a hash state

The hashes work on a fixed number of 32-bit words. A place outside the state reads as zero, and
writing there changes nothing.
-/

namespace HeaderSync

abbrev Words (n : Nat) := Vector UInt32 n

namespace Words
open Bytes
variable {n : Nat}

def get (w : Words n) (i : Nat) : UInt32 := w.toArray.getD i 0

def put (w : Words n) (i : Nat) (x : UInt32) : Words n := w.setIfInBounds i x

def xor (v w : Words n) : Words n := Vector.zipWith (· ^^^ ·) v w

def add (v w : Words n) : Words n := Vector.zipWith (· + ·) v w

def ofBig (bytes : Array UInt8) (start : Nat) : Words n :=
  Vector.ofFn fun i => bigWord bytes (start + 4 * i.val)

def ofLittle (bytes : Array UInt8) (start : Nat) : Words n :=
  Vector.ofFn fun i => littleWord bytes (start + 4 * i.val)

def toBigDigest (w : Words 8) : Digest :=
  ⟨Vector.ofFn fun i => byteOf (w.get (i.val / 4)) (3 - i.val % 4)⟩

def toLittleDigest (w : Words 8) : Digest :=
  ⟨Vector.ofFn fun i => byteOf (w.get (i.val / 4)) (i.val % 4)⟩

end Words
end HeaderSync
