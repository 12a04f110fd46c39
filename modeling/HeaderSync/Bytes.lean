/-!
# Numbers as bytes

Fixed-width numbers are written least significant byte first.
-/

namespace HeaderSync.Bytes

/-- The low `width` bytes of `n`, least significant first. -/
def little : (width n : Nat) → List UInt8
  | 0, _ => []
  | width + 1, n => UInt8.ofNat (n % 256) :: little width (n / 256)

def ofLittle : List UInt8 → Nat
  | [] => 0
  | b :: bs => b.toNat + 256 * ofLittle bs

@[simp] theorem length_little (width n : Nat) : (little width n).length = width := by
  induction width generalizing n with
  | zero => rfl
  | succ width ih => simp [little, ih]

/-- The number of values of one byte more. -/
theorem one_shiftLeft_succ (width : Nat) : 1 <<< (8 * (width + 1)) = 256 * (1 <<< (8 * width)) := by
  rw [Nat.mul_add, Nat.shiftLeft_add]
  omega

theorem ofLittle_little (width n : Nat) :
    ofLittle (little width n) = n % (1 <<< (8 * width)) := by
  induction width generalizing n with
  | zero => simp [little, ofLittle, Nat.mod_one]
  | succ width ih =>
    have h : (UInt8.ofNat (n % 256)).toNat = n % 256 := by simp [UInt8.toNat_ofNat']
    rw [little, ofLittle, ih, h, one_shiftLeft_succ, Nat.mod_mul]

theorem ofLittle_lt (bs : List UInt8) : ofLittle bs < 1 <<< (8 * bs.length) := by
  induction bs with
  | nil => simp [ofLittle]
  | cons b bs ih =>
    have hb : b.toNat < 256 := b.toNat_lt
    rw [ofLittle, List.length_cons, one_shiftLeft_succ]
    omega

theorem little_ofLittle (bs : List UInt8) : little bs.length (ofLittle bs) = bs := by
  induction bs with
  | nil => rfl
  | cons b bs ih =>
    have hb : b.toNat < 256 := b.toNat_lt
    have hmod : (b.toNat + 256 * ofLittle bs) % 256 = b.toNat := by omega
    have hdiv : (b.toNat + 256 * ofLittle bs) / 256 = ofLittle bs := by omega
    rw [List.length_cons, ofLittle, little, hmod, hdiv, ih, UInt8.ofNat_toNat]

def bigWord (bytes : Array UInt8) (start : Nat) : UInt32 :=
  (bytes.getD start 0).toUInt32 <<< 24 ||| (bytes.getD (start + 1) 0).toUInt32 <<< 16 |||
    (bytes.getD (start + 2) 0).toUInt32 <<< 8 ||| (bytes.getD (start + 3) 0).toUInt32

def littleWord (bytes : Array UInt8) (start : Nat) : UInt32 :=
  (bytes.getD start 0).toUInt32 ||| (bytes.getD (start + 1) 0).toUInt32 <<< 8 |||
    (bytes.getD (start + 2) 0).toUInt32 <<< 16 ||| (bytes.getD (start + 3) 0).toUInt32 <<< 24

def byteOf (w : UInt32) (place : Nat) : UInt8 := (w >>> (8 * UInt32.ofNat place)).toUInt8

def ofWord (w : UInt32) : List UInt8 := [byteOf w 0, byteOf w 1, byteOf w 2, byteOf w 3]

def rotateLeft (w : UInt32) (places : UInt32) : UInt32 :=
  w <<< places ||| w >>> (32 - places)

def rotateRight (w : UInt32) (places : UInt32) : UInt32 :=
  w >>> places ||| w <<< (32 - places)

end HeaderSync.Bytes
