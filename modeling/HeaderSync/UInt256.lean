/-!
# Unsigned 256-bit numbers

Targets and work are natural numbers of at most 256 bits. Arithmetic is done on `Nat` and brought
back by `clamp`, which saturates, or by `wrap`, which keeps the low 256 bits.
-/

namespace HeaderSync

structure UInt256 where
  toNat : Nat
  toNat_lt : toNat < 1 <<< 256
deriving DecidableEq

namespace UInt256

@[ext] theorem ext {a b : UInt256} (h : a.toNat = b.toNat) : a = b := by
  cases a; cases b; simp_all

instance : LE UInt256 := ⟨fun a b => a.toNat ≤ b.toNat⟩

instance : LT UInt256 := ⟨fun a b => a.toNat < b.toNat⟩

instance (a b : UInt256) : Decidable (a ≤ b) := inferInstanceAs (Decidable (a.toNat ≤ b.toNat))

instance (a b : UInt256) : Decidable (a < b) := inferInstanceAs (Decidable (a.toNat < b.toNat))

instance : Min UInt256 := minOfLe

theorem le_iff {a b : UInt256} : a ≤ b ↔ a.toNat ≤ b.toNat := Iff.rfl

theorem lt_iff {a b : UInt256} : a < b ↔ a.toNat < b.toNat := Iff.rfl

theorem toNat_inj {a b : UInt256} : a.toNat = b.toNat ↔ a = b := ⟨ext, congrArg _⟩

def clamp (n : Nat) : UInt256 := ⟨min n ((1 <<< 256) - 1), by omega⟩

def wrap (n : Nat) : UInt256 := ⟨n % (1 <<< 256), Nat.mod_lt _ (by decide)⟩

instance (n : Nat) : OfNat UInt256 n := ⟨wrap n⟩

def greatest : UInt256 := ⟨(1 <<< 256) - 1, by decide⟩

@[simp] theorem toNat_clamp (n : Nat) : (clamp n).toNat = min n ((1 <<< 256) - 1) := rfl

@[simp] theorem toNat_wrap (n : Nat) : (wrap n).toNat = n % (1 <<< 256) := rfl

@[simp] theorem toNat_greatest : greatest.toNat = (1 <<< 256) - 1 := rfl

@[simp] theorem toNat_zero : (0 : UInt256).toNat = 0 := rfl

theorem toNat_le (a : UInt256) : a.toNat ≤ (1 <<< 256) - 1 := by
  have := a.toNat_lt
  omega

theorem clamp_toNat (a : UInt256) : clamp a.toNat = a :=
  ext (Nat.min_eq_left a.toNat_le)

theorem toNat_min (a b : UInt256) : (min a b).toNat = min a.toNat b.toNat := by
  change (if a ≤ b then a else b).toNat = _
  split <;> simp_all only [le_iff] <;> omega

def satAdd (a b : UInt256) : UInt256 := clamp (a.toNat + b.toNat)

def satSub (a b : UInt256) : UInt256 := ⟨a.toNat - b.toNat, by have := a.toNat_lt; omega⟩

@[simp] theorem toNat_satAdd (a b : UInt256) :
    (satAdd a b).toNat = min (a.toNat + b.toNat) ((1 <<< 256) - 1) := rfl

@[simp] theorem toNat_satSub (a b : UInt256) : (satSub a b).toNat = a.toNat - b.toNat := rfl

def sum (xs : List UInt256) : UInt256 := xs.foldl satAdd 0

/-- The floor of `value * factor / divisor` over unbounded numbers, saturating; a zero divisor
gives the greatest number. -/
def mulDiv (value : UInt256) (factor divisor : Nat) : UInt256 :=
  if divisor = 0 then greatest else clamp (value.toNat * factor / divisor)

def divNat (value : UInt256) (divisor : Nat) : UInt256 :=
  ⟨value.toNat / divisor, Nat.lt_of_le_of_lt (Nat.div_le_self _ _) value.toNat_lt⟩

@[simp] theorem toNat_divNat (value : UInt256) (divisor : Nat) :
    (divNat value divisor).toNat = value.toNat / divisor := rfl

def bitLength (value : UInt256) : Nat :=
  if value.toNat = 0 then 0 else value.toNat.log2 + 1

def byteLength (value : UInt256) : Nat := (value.bitLength + 7) / 8

end UInt256
end HeaderSync
