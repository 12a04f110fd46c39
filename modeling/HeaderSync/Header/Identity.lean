import HeaderSync.Hash.Scrypt
import HeaderSync.Header.Codec

/-!
# What identifies a header and what proves its work

Headers are linked by the double SHA-256 of their encoding. Proof of work is judged on another hash
of the same bytes, scrypt with the encoding as both password and salt.
-/

namespace HeaderSync.Header

def id (h : Header) : Digest := Sha256.double h.encode

def proofHash (h : Header) : Digest := Scrypt.hash 1024 h.encode h.encode

end HeaderSync.Header
