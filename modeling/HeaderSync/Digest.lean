import HeaderSync.Bytes
import HeaderSync.UInt256

/-!
# Digests

A digest is 32 bytes in memory order. Compared with a target it is a little-endian number.
-/

namespace HeaderSync

structure Digest where
  bytes : Vector UInt8 32
deriving DecidableEq

namespace Digest

instance : Hashable Digest := ⟨fun d => hash d.bytes.toArray⟩

def zero : Digest := ⟨Vector.replicate 32 0⟩

def toList (d : Digest) : List UInt8 := d.bytes.toList

def ofList? (bs : List UInt8) : Option Digest :=
  if h : bs.length = 32 then some ⟨⟨bs.toArray, by simpa using h⟩⟩ else none

def isZero (d : Digest) : Bool := d.toList.all (· = 0)

def toUInt256 (d : Digest) : UInt256 := .wrap (Bytes.ofLittle d.toList)

/-- The bytes in decimal, as error texts show them. -/
def text (d : Digest) : String :=
  "Hash256([" ++ ", ".intercalate (d.toList.map fun b => toString b.toNat) ++ "])"

@[simp] theorem length_toList (d : Digest) : d.toList.length = 32 := by simp [toList]

theorem ofList?_toList (d : Digest) : ofList? d.toList = some d := by
  rcases d with ⟨⟨⟨xs⟩, h⟩⟩
  exact dif_pos h

theorem toList_of_ofList? {bs : List UInt8} {d : Digest} (h : ofList? bs = some d) :
    d.toList = bs := by
  simp only [ofList?, Option.dite_none_right_eq_some, Option.some.injEq] at h
  obtain ⟨_, rfl⟩ := h
  simp [toList]

end Digest
end HeaderSync
