import HeaderSync.Header.Identity
import HeaderSync.Proofs.Linkage
import Mathlib.Data.List.FinRange
import Mathlib.Data.List.GetD

/-!
# Comparing the identities of given headers

Words of 32 bits are slow to evaluate inside a proof, and take much memory. SHA-256 on natural
numbers takes the same steps and gives the same bytes, so the identities of given headers are told
apart by their bytes as numbers.
-/

namespace HeaderSync
open Bytes

def Bytes.numbers (bytes : List UInt8) : List Nat := bytes.map UInt8.toNat

namespace Sha256

structure Numbers where
  a : Nat
  b : Nat
  c : Nat
  d : Nat
  e : Nat
  f : Nat
  g : Nat
  h : Nat

def State.numbers (s : State) : Numbers :=
  ⟨s.a.toNat, s.b.toNat, s.c.toNat, s.d.toNat, s.e.toNat, s.f.toNat, s.g.toNat, s.h.toNat⟩

namespace Numbers

def rotateRight (x places : Nat) : Nat := x >>> places ||| x <<< (32 - places) % 0x100000000

def smallSigma0 (x : Nat) : Nat := rotateRight x 7 ^^^ rotateRight x 18 ^^^ x >>> 3

def smallSigma1 (x : Nat) : Nat := rotateRight x 17 ^^^ rotateRight x 19 ^^^ x >>> 10

def bigSigma0 (x : Nat) : Nat := rotateRight x 2 ^^^ rotateRight x 13 ^^^ rotateRight x 22

def bigSigma1 (x : Nat) : Nat := rotateRight x 6 ^^^ rotateRight x 11 ^^^ rotateRight x 25

def extend (block : List Nat) : (extra : Nat) → List Nat
  | 0 => block.reverse
  | extra + 1 =>
    let words := extend block extra
    (smallSigma1 (words.getD 1 0) + words.getD 6 0 + smallSigma0 (words.getD 14 0) +
      words.getD 15 0) % 0x100000000 :: words

def inputs (block : List Nat) : List Nat :=
  List.zipWith (fun k w => (k + w) % 0x100000000) (roundConstants.toList.map UInt32.toNat)
    (extend block 48).reverse

def round (s : Numbers) (input : Nat) : Numbers :=
  let choice := (s.e &&& s.f) ^^^ ((0xffffffff - s.e) &&& s.g)
  let majority := (s.a &&& s.b) ^^^ (s.a &&& s.c) ^^^ (s.b &&& s.c)
  let t := s.h + bigSigma1 s.e + choice + input
  { a := (t + bigSigma0 s.a + majority) % 0x100000000, b := s.a, c := s.b, d := s.c,
    e := (s.d + t) % 0x100000000, f := s.e, g := s.f, h := s.g }

def add (s t : Numbers) : Numbers :=
  { a := (s.a + t.a) % 0x100000000, b := (s.b + t.b) % 0x100000000,
    c := (s.c + t.c) % 0x100000000, d := (s.d + t.d) % 0x100000000,
    e := (s.e + t.e) % 0x100000000, f := (s.f + t.f) % 0x100000000,
    g := (s.g + t.g) % 0x100000000, h := (s.h + t.h) % 0x100000000 }

def compress (s : Numbers) (block : List Nat) : Numbers := s.add ((inputs block).foldl round s)

def little : (width n : Nat) → List Nat
  | 0, _ => []
  | width + 1, n => n % 256 :: little width (n / 256)

def padded (message : List Nat) : List Nat :=
  message ++ 0x80 :: List.replicate ((119 - message.length % 64) % 64) 0 ++
    (little 8 (8 * message.length)).reverse

def bigWord (bytes : List Nat) (start : Nat) : Nat :=
  -- The bytes before the word are passed once, not again for each of its four bytes.
  let rest := bytes.drop start
  rest.getD 0 0 <<< 24 % 0x100000000 ||| rest.getD 1 0 <<< 16 % 0x100000000 |||
    rest.getD 2 0 <<< 8 % 0x100000000 ||| rest.getD 3 0

def block (bytes : List Nat) (start : Nat) : List Nat :=
  (List.range 16).map fun i => bigWord bytes (start + 4 * i)

def wordBytes (x : Nat) : List Nat := [x >>> 24 % 256, x >>> 16 % 256, x >>> 8 % 256, x % 256]

def digest (s : Numbers) : List Nat := [s.a, s.b, s.c, s.d, s.e, s.f, s.g, s.h].flatMap wordBytes

def hash (message : List Nat) : List Nat :=
  let bytes := padded message
  ((List.range (bytes.length / 64)).foldl (fun s i => compress s (block bytes (64 * i)))
    initial.numbers).digest

def double (message : List Nat) : List Nat := hash (hash message)

end Numbers

theorem toNat_rotateRight {w places : UInt32} (hpos : 0 < places.toNat) (hlt : places.toNat < 32) :
    (rotateRight w places).toNat = Numbers.rotateRight w.toNat places.toNat := by
  have hle : places ≤ 32 := by
    rw [UInt32.le_iff_toNat_le]
    exact Nat.le_of_lt hlt
  have hrest : (32 - places).toNat = 32 - places.toNat := UInt32.toNat_sub_of_le _ _ hle
  rw [rotateRight, Numbers.rotateRight, UInt32.toNat_or, UInt32.toNat_shiftRight,
    UInt32.toNat_shiftLeft, hrest, Nat.mod_eq_of_lt hlt,
    Nat.mod_eq_of_lt (by omega : 32 - places.toNat < 32)]

@[simp] theorem toNat_smallSigma0 (x : UInt32) :
    (smallSigma0 x).toNat = Numbers.smallSigma0 x.toNat := by
  simp [smallSigma0, Numbers.smallSigma0, toNat_rotateRight]

@[simp] theorem toNat_smallSigma1 (x : UInt32) :
    (smallSigma1 x).toNat = Numbers.smallSigma1 x.toNat := by
  simp [smallSigma1, Numbers.smallSigma1, toNat_rotateRight]

@[simp] theorem toNat_bigSigma0 (x : UInt32) :
    (bigSigma0 x).toNat = Numbers.bigSigma0 x.toNat := by
  simp [bigSigma0, Numbers.bigSigma0, toNat_rotateRight]

@[simp] theorem toNat_bigSigma1 (x : UInt32) :
    (bigSigma1 x).toNat = Numbers.bigSigma1 x.toNat := by
  simp [bigSigma1, Numbers.bigSigma1, toNat_rotateRight]

theorem numbers_round (s : State) (input : UInt32) :
    (s.round input).numbers = s.numbers.round input.toNat := by
  simp [State.round, State.numbers, Numbers.round]

theorem numbers_foldl_round (s : State) (inputs : List UInt32) :
    (inputs.foldl State.round s).numbers =
      (inputs.map UInt32.toNat).foldl Numbers.round s.numbers := by
  rw [List.foldl_map]
  exact (List.foldl_hom State.numbers fun s input => (numbers_round s input).symm).symm

theorem numbers_add (s t : State) : (s.add t).numbers = s.numbers.add t.numbers := by
  simp [State.add, State.numbers, Numbers.add]

/-- A word counted from the last one. -/
theorem toNat_get {n i j : Nat} (w : Words n) (h : i + j + 1 = n) :
    (w.get i).toNat = (w.toList.map UInt32.toNat).reverse.getD j 0 := by
  have hj : j < (w.toList.map UInt32.toNat).length := by
    rw [List.length_map, Vector.length_toList]
    omega
  have hi : (w.toList.map UInt32.toNat).length - 1 - j = i := by
    rw [List.length_map, Vector.length_toList]
    omega
  have hget : w.get i = w.toList.getD i 0 := by simp [Words.get, Vector.toList]
  rw [List.getD_eq_getElem?_getD, List.getElem?_reverse hj, hi, ← List.getD_eq_getElem?_getD, hget]
  exact (List.getD_map ..).symm

theorem numbers_extend (block : Words 16) (extra : Nat) :
    ((extend block extra).toList.map UInt32.toNat).reverse =
      Numbers.extend (block.toList.map UInt32.toNat) extra := by
  induction extra with
  | zero => rfl
  | succ extra ih =>
    rw [Numbers.extend, ← ih, extend, Vector.toList_push, List.map_append, List.reverse_append,
      ← toNat_get (i := extra + 14) (j := 1) _ (by omega),
      ← toNat_get (i := extra + 9) (j := 6) _ (by omega),
      ← toNat_get (i := extra + 1) (j := 14) _ (by omega),
      ← toNat_get (i := extra) (j := 15) _ (by omega)]
    simp

theorem numbers_inputs (block : Words 16) :
    (Words.add roundConstants (schedule block)).toList.map UInt32.toNat =
      Numbers.inputs (block.toList.map UInt32.toNat) := by
  rw [Numbers.inputs, ← numbers_extend, List.reverse_reverse, Words.add, Vector.toList_zipWith,
    List.map_zipWith, List.zipWith_map]
  simp [schedule]

theorem numbers_compress (s : State) (block : Words 16) :
    (compress s block).numbers = s.numbers.compress (block.toList.map UInt32.toNat) := by
  rw [compress, numbers_add, Numbers.compress, ← numbers_inputs, ← numbers_foldl_round,
    Vector.foldl_toList]

theorem numbers_little (width n : Nat) : Bytes.numbers (little width n) = Numbers.little width n := by
  induction width generalizing n with
  | zero => rfl
  | succ width ih =>
    rw [little, Numbers.little, Bytes.numbers, List.map_cons, UInt8.toNat_ofNat', Nat.mod_mod]
    exact congrArg _ (ih _)

theorem numbers_padded (message : List UInt8) :
    Bytes.numbers (padded message) = Numbers.padded (Bytes.numbers message) := by
  have hlength : (Bytes.numbers message).length = message.length := List.length_map ..
  rw [Numbers.padded, hlength, ← numbers_little]
  simp [padded, Bytes.numbers]

theorem toNat_bigWord (bytes : List UInt8) (start : Nat) :
    (bigWord bytes.toArray start).toNat = Numbers.bigWord (Bytes.numbers bytes) start := by
  have hget (i : Nat) :
      ((Bytes.numbers bytes).drop start).getD i 0 = (bytes.getD (start + i) 0).toNat := by
    rw [List.getD_eq_getElem?_getD, List.getElem?_drop, ← List.getD_eq_getElem?_getD]
    exact List.getD_map _ 0 UInt8.toNat
  rw [Numbers.bigWord, hget, hget, hget, hget]
  simp [bigWord]

theorem numbers_block (bytes : List UInt8) (start : Nat) :
    (Words.ofBig bytes.toArray start : Words 16).toList.map UInt32.toNat =
      Numbers.block (Bytes.numbers bytes) start := by
  rw [Words.ofBig, Vector.toList_ofFn, List.map_ofFn, Numbers.block,
    ← List.map_coe_finRange_eq_range, List.map_map, List.ofFn_eq_map]
  exact congrArg (List.map · _) (funext fun i => toNat_bigWord bytes _)

theorem numbers_digest (s : State) : Bytes.numbers s.digest.toList = s.numbers.digest := by
  have hbytes : s.digest.toList =
      [s.a, s.b, s.c, s.d, s.e, s.f, s.g, s.h].flatMap fun w => (ofWord w).reverse := by
    simp [State.digest, Words.toBigDigest, Digest.toList, Vector.toList_ofFn, List.ofFn_succ, ofWord,
      Words.get]
  have hword (w : UInt32) : (ofWord w).reverse.map UInt8.toNat = Numbers.wordBytes w.toNat := by
    simp [ofWord, byteOf, Numbers.wordBytes]
  simp only [hbytes, Bytes.numbers, List.map_flatMap, hword]
  rfl

theorem numbers_hash (message : List UInt8) :
    Bytes.numbers (hash message).toList = Numbers.hash (Bytes.numbers message) := by
  have hlength : (Numbers.padded (Bytes.numbers message)).length = (padded message).length := by
    rw [← numbers_padded]
    exact List.length_map ..
  rw [hash, numbers_digest, Numbers.hash, hlength, List.size_toArray]
  refine congrArg Numbers.digest (List.foldl_hom _ fun s i => ?_).symm
  rw [numbers_compress, numbers_block, numbers_padded]

theorem numbers_double (message : List UInt8) :
    Bytes.numbers (double message).toList = Numbers.double (Bytes.numbers message) := by
  rw [double, Numbers.double, numbers_hash, numbers_hash]

end Sha256

namespace Header

/-- The bytes of a header's identity as numbers, given those of its parent's. -/
def idNumbers (parent : List Nat) (h : Header) : List Nat :=
  let word (x : UInt32) : List Nat := Sha256.Numbers.little 4 x.toNat
  Sha256.Numbers.double (word h.version.toUInt32 ++ parent ++ Bytes.numbers h.merkleRoot.toList ++
    word h.time ++ word h.bits.word ++ word h.nonce)

theorem numbers_id (h : Header) {parent : List Nat}
    (hp : Bytes.numbers h.parent.toList = parent) :
    Bytes.numbers h.id.toList = idNumbers parent h := by
  rw [id, Sha256.numbers_double, idNumbers, encode, ← hp]
  simp only [Bytes.numbers, List.map_append]
  simp only [← Sha256.numbers_little, Bytes.numbers]

theorem id_ne_of_numbers {g h : Header} {x y : List Nat} (hg : Bytes.numbers g.id.toList = x)
    (hh : Bytes.numbers h.id.toList = y) (hne : x ≠ y) : g.id ≠ h.id := by
  intro heq
  rw [heq] at hg
  exact hne (hg.symm.trans hh)

def runNumbers (parent : List Nat) : List CompressedHeader → List (List Nat)
  | [] => []
  | c :: cs =>
    let own := idNumbers parent (c.restore .zero)
    own :: runNumbers own cs

theorem numbers_relink {parent : Digest} {x : List Nat} (hx : Bytes.numbers parent.toList = x)
    (cs : List CompressedHeader) :
    (relink parent cs).map (fun h => Bytes.numbers h.id.toList) = runNumbers x cs := by
  induction cs generalizing parent x with
  | nil => rfl
  | cons c cs ih =>
    have hid : Bytes.numbers (c.restore parent).id.toList = idNumbers x (c.restore .zero) :=
      numbers_id (c.restore parent) hx
    rw [relink, List.map_cons, ih hid, hid]
    rfl

attribute [local irreducible] id

theorem nodup_id_relink {g : Header} {x : List Nat} (hx : Bytes.numbers g.parent.toList = x)
    {cs : List CompressedHeader} (h : (runNumbers x (g.compress :: cs)).Nodup) :
    ((g :: relink g.id cs).map id).Nodup := by
  apply List.Nodup.of_map fun d : Digest => Bytes.numbers d.toList
  have hrun := numbers_relink hx (g.compress :: cs)
  rw [relink, restore_compress] at hrun
  rw [← hrun] at h
  rwa [List.map_map]

/-- Fifteen headers, each a second later than the one before. -/
theorem nodup_id_seconds :
    let g : Header := ⟨1, .zero, .zero, 1700000000, ⟨0x200f0f0f⟩, 0⟩
    let later := relink g.id
      ((List.range 14).map fun n => ⟨1, .zero, 1700000001 + .ofNat n, ⟨0x200f0f0f⟩, 0⟩)
    ((g :: later).map id).Nodup := by
  apply nodup_id_relink rfl
  decide +kernel

end Header
end HeaderSync
