import HeaderSync.Hash.Sha256

/-!
# Scrypt

The memory-hard hash in its smallest shape: block size one and no parallelism. A message is
stretched to 128 bytes, mixed through a table of earlier states, and hashed down to 32 bytes.
-/

namespace HeaderSync.Scrypt
open Bytes

/-- The keyed hash of a message (HMAC over SHA-256). -/
def keyed (key message : List UInt8) : Digest :=
  let short := if 64 < key.length then (Sha256.hash key).toList else key
  let full := short ++ List.replicate (64 - short.length) 0
  Sha256.hash (full.map (0x5c ^^^ ·) ++ (Sha256.hash (full.map (0x36 ^^^ ·) ++ message)).toList)

/-- `32 * blocks` bytes derived from a password and a salt by one pass each (PBKDF2). -/
def derive (password salt : List UInt8) (blocks : Nat) : List UInt8 :=
  (List.range blocks).flatMap fun i =>
    (keyed password (salt ++ (little 4 (i + 1)).reverse)).toList

def quarter (a b c d : Nat) (x : Words 16) : Words 16 :=
  let x := x.put b (x.get b ^^^ rotateLeft (x.get a + x.get d) 7)
  let x := x.put c (x.get c ^^^ rotateLeft (x.get b + x.get a) 9)
  let x := x.put d (x.get d ^^^ rotateLeft (x.get c + x.get b) 13)
  x.put a (x.get a ^^^ rotateLeft (x.get d + x.get c) 18)

def doubleRound (x : Words 16) : Words 16 :=
  let x := quarter 0 4 8 12 x
  let x := quarter 5 9 13 1 x
  let x := quarter 10 14 2 6 x
  let x := quarter 15 3 7 11 x
  let x := quarter 0 1 2 3 x
  let x := quarter 5 6 7 4 x
  let x := quarter 10 11 8 9 x
  quarter 15 12 13 14 x

def salsa (x : Words 16) : Words 16 :=
  x.add (doubleRound (doubleRound (doubleRound (doubleRound x))))

structure Block where
  low : Words 16
  high : Words 16

def Block.xor (x y : Block) : Block := ⟨x.low.xor y.low, x.high.xor y.high⟩

def Block.mix (x : Block) : Block :=
  let low := salsa (x.high.xor x.low)
  ⟨low, salsa (low.xor x.high)⟩

def table (x : Block) : (count : Nat) → Array Block × Block
  | 0 => (.mk [], x)
  | count + 1 =>
    let (rows, last) := table x count
    (rows.push last, last.mix)

/-- One step that combines the state with the row which its high half names. -/
def lookUp (rows : Array Block) (x : Block) : Block :=
  (x.xor (rows.getD ((x.high.get 0).toNat % rows.size) x)).mix

def roMix (cost : Nat) (x : Block) : Block :=
  let (rows, last) := table x cost
  (List.range cost).foldl (fun y _ => lookUp rows y) last

def Block.ofBytes (bytes : Array UInt8) : Block := ⟨Words.ofLittle bytes 0, Words.ofLittle bytes 64⟩

def Block.toBytes (x : Block) : List UInt8 :=
  x.low.toList.flatMap ofWord ++ x.high.toList.flatMap ofWord

def hash (cost : Nat) (password salt : List UInt8) : Digest :=
  let mixed := roMix cost (Block.ofBytes (derive password salt 4).toArray)
  keyed password (mixed.toBytes ++ (little 4 1).reverse)

end HeaderSync.Scrypt
