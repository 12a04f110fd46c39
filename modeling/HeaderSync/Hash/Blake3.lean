import HeaderSync.Hash.Words

/-!
# BLAKE3

The input is cut into chunks of 1024 bytes, a chunk into blocks of 64. The chunks are the leaves of
a binary tree whose left halves hold a power of two of them; the root's last compression is marked.
A key of eight words takes the place of the initial chaining value.
-/

namespace HeaderSync.Blake3
open Bytes

def initial : Words 8 :=
  ⟨.mk [0x6a09e667, 0xbb67ae85, 0x3c6ef372, 0xa54ff53a, 0x510e527f, 0x9b05688c, 0x1f83d9ab,
    0x5be0cd19], rfl⟩

def chunkStart : UInt32 := 1

def chunkEnd : UInt32 := 2

def parentNode : UInt32 := 4

def root : UInt32 := 8

def keyedMode : UInt32 := 16

/-- The places from which a round takes the message words for the next one. -/
def permutation : Vector Nat 16 :=
  ⟨.mk [2, 6, 3, 10, 7, 0, 4, 13, 1, 11, 12, 5, 9, 14, 15, 8], rfl⟩

def permute (m : Words 16) : Words 16 := permutation.map m.get

def mix (a b c d : Nat) (x y : UInt32) (s : Words 16) : Words 16 :=
  let s := s.put a (s.get a + s.get b + x)
  let s := s.put d (rotateRight (s.get d ^^^ s.get a) 16)
  let s := s.put c (s.get c + s.get d)
  let s := s.put b (rotateRight (s.get b ^^^ s.get c) 12)
  let s := s.put a (s.get a + s.get b + y)
  let s := s.put d (rotateRight (s.get d ^^^ s.get a) 8)
  let s := s.put c (s.get c + s.get d)
  s.put b (rotateRight (s.get b ^^^ s.get c) 7)

def round (m s : Words 16) : Words 16 :=
  let s := mix 0 4 8 12 (m.get 0) (m.get 1) s
  let s := mix 1 5 9 13 (m.get 2) (m.get 3) s
  let s := mix 2 6 10 14 (m.get 4) (m.get 5) s
  let s := mix 3 7 11 15 (m.get 6) (m.get 7) s
  let s := mix 0 5 10 15 (m.get 8) (m.get 9) s
  let s := mix 1 6 11 12 (m.get 10) (m.get 11) s
  let s := mix 2 7 8 13 (m.get 12) (m.get 13) s
  mix 3 4 9 14 (m.get 14) (m.get 15) s

def rounds : (count : Nat) → (m s : Words 16) → Words 16
  | 0, _, s => s
  | count + 1, m, s => rounds count (permute m) (round m s)

structure Input where
  chain : Words 8
  block : Words 16
  counter : Nat
  length : UInt32
  flags : UInt32

def Input.start (i : Input) : Words 16 :=
  i.chain ++ (⟨.mk [0x6a09e667, 0xbb67ae85, 0x3c6ef372, 0xa54ff53a, UInt32.ofNat i.counter,
    UInt32.ofNat (i.counter >>> 32), i.length, i.flags], rfl⟩ : Words 8)

/-- The chaining value that a compression gives: the two halves of the state combined. -/
def Input.compress (i : Input) : Words 8 :=
  let s := rounds 7 i.block i.start
  Vector.ofFn fun j => s.get j.val ^^^ s.get (j.val + 8)

def chunkInput (flags : UInt32) (counter : Nat) (bytes : Array UInt8) (key : Words 8) : Input :=
  let blocks := max 1 ((bytes.size + 63) / 64)
  let input (chain : Words 8) (i : Nat) : Input :=
    { chain, counter, block := Words.ofLittle bytes (64 * i)
      length := UInt32.ofNat (min 64 (bytes.size - 64 * i))
      flags := flags ||| (if i = 0 then chunkStart else 0) |||
        (if i + 1 = blocks then chunkEnd else 0) }
  input ((List.range (blocks - 1)).foldl (fun chain i => (input chain i).compress) key)
    (blocks - 1)

def parentInput (flags : UInt32) (key left right : Words 8) : Input :=
  { chain := key, block := left ++ right, counter := 0, length := 64,
    flags := flags ||| parentNode }

def chunks (bytes : List UInt8) : List (Array UInt8) :=
  (List.range (max 1 ((bytes.length + 1023) / 1024))).map fun i =>
    ((bytes.drop (1024 * i)).take 1024).toArray

/-- The number of chunks in the left half of a tree: the greatest power of two below `count`. -/
def leftCount (count : Nat) : Nat := 1 <<< (count - 1).log2

theorem leftCount_pos (count : Nat) : 0 < leftCount count := by
  rw [leftCount, Nat.one_shiftLeft]
  exact Nat.two_pow_pos _

theorem leftCount_lt {count : Nat} (h : 1 < count) : leftCount count < count := by
  have := Nat.log2_self_le (show count - 1 ≠ 0 by omega)
  rw [leftCount, Nat.one_shiftLeft]
  omega

/-- The last compression of the tree over some chunks, the first of which has the given number. -/
def treeInput (flags : UInt32) (key : Words 8) (counter : Nat) (cs : List (Array UInt8)) : Input :=
  if _ : 1 < cs.length then
    let left := cs.take (leftCount cs.length)
    let right := cs.drop (leftCount cs.length)
    parentInput flags key (treeInput flags key counter left).compress
      (treeInput flags key (counter + left.length) right).compress
  else chunkInput flags counter (cs.headD (.mk [])) key
termination_by cs.length
decreasing_by
  · have := leftCount_lt (by assumption : 1 < cs.length)
    simp only [List.length_take]
    omega
  · have := leftCount_pos cs.length
    simp only [List.length_drop]
    omega

def digest (flags : UInt32) (key : Words 8) (bytes : List UInt8) : Digest :=
  let input := treeInput flags key 0 (chunks bytes)
  Words.toLittleDigest { input with flags := input.flags ||| root }.compress

def hash (bytes : List UInt8) : Digest := digest 0 initial bytes

def keyedHash (key : Digest) (bytes : List UInt8) : Digest :=
  digest keyedMode (Words.ofLittle key.bytes.toArray 0) bytes

end HeaderSync.Blake3
