import HeaderSync.Hash.Blake3

/-!
# Domain hashes and commitment bits

A tag of sixteen bytes in front of the hashed bytes keeps the uses of the hash apart. A commitment
is one bit of the tagged digest of a header under a key that the peer does not know.
-/

namespace HeaderSync

abbrev DomainTag := Vector UInt8 16

def commitmentTag : DomainTag :=
  ⟨.mk [0x42, 0x45, 0x4c, 0x4c, 0x53, 0x3a, 0x43, 0x4d, 0x54, 0x3a, 0x56, 0x30, 0, 0, 0, 0], rfl⟩

def domainHash (tag : DomainTag) (bytes : List UInt8) : Digest :=
  Blake3.hash (tag.toList ++ bytes)

def commitmentBit (key id : Digest) : Bool :=
  (Blake3.keyedHash key (commitmentTag.toList ++ id.toList)).bytes[0] &&& 1 = 1

end HeaderSync
