import HeaderSync.Document

/-!
# Writing TOML

A table is written as one line per field, and after these one headed section per member of each list
of tables. An integer beyond 64 bits has no written form, nor has a text that would need escapes.
-/

namespace HeaderSync.Toml

def decimalDigits (n : Nat) : List Char :=
  if n < 10 then [Char.ofNat (48 + n)] else decimalDigits (n / 10) ++ [Char.ofNat (48 + n % 10)]

def writeInteger (n : Int) : List Char :=
  if n < 0 then '-' :: decimalDigits n.natAbs else decimalDigits n.natAbs

def isVerbatim (c : Char) : Bool :=
  0x20 ≤ c.toNat && c.toNat ≠ 0x7f && c ≠ '\x22' && c ≠ '\\'

def writeScalar? : Value → Option (List Char)
  | .boolean b => some (if b then "true".toList else "false".toList)
  | .integer n =>
    if -0x8000000000000000 ≤ n ∧ n < 0x8000000000000000 then some (writeInteger n) else none
  | .text s => if s.toList.all isVerbatim then some ('\x22' :: s.toList ++ ['\x22']) else none
  | _ => none

def writeField? (name : String) (v : Value) : Option (List Char) := do
  return name.toList ++ " = ".toList ++ (← writeScalar? v) ++ ['\n']

def writeFields? (fields : List (String × Value)) : Option (List Char) := do
  return (← fields.mapM fun (name, v) => writeField? name v).flatten

def writeSection? (name : String) : Value → Option (List Char)
  | .table _ fields => do
    return "\n[[".toList ++ name.toList ++ "]]\n".toList ++ (← writeFields? fields)
  | _ => none

def writeSections? (name : String) : Value → Option (List Char)
  | .list _ items => do return (← items.mapM (writeSection? name)).flatten
  | _ => some []

def isSectioned : Value → Bool
  | .list _ _ => true
  | _ => false

def write? (fields : List (String × Value)) : Option (List Char) := do
  let lines ← writeFields? (fields.filter fun (_, v) => !isSectioned v)
  let sections ← fields.mapM fun (name, v) => writeSections? name v
  return lines ++ sections.flatten

end HeaderSync.Toml
