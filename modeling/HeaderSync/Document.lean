import HeaderSync.UInt256.Hex

/-!
# Documents

Parameters, headers and settings are exchanged as documents: values built from scalars, lists and
tables. The two dialects agree on the values and differ in how strictly a record is read from a list
and in how an enumeration is written as a table.
-/

namespace HeaderSync

/-- How a list or a table was written. An implied table was named in the path of a header, a dotted
one in the path of a key. -/
inductive Form where
  | inline
  | header
  | implied
  | dotted
deriving DecidableEq

inductive Value where
  | null
  | boolean (b : Bool)
  | integer (n : Int)
  | float (spelling : String)
  | time (spelling : String)
  | text (s : String)
  | list (form : Form) (items : List Value)
  | table (form : Form) (fields : List (String × Value))

inductive Dialect where
  | json
  | toml
deriving DecidableEq

namespace Value

def toBool? : Value → Option Bool
  | .boolean b => some b
  | _ => none

def toText? : Value → Option String
  | .text s => some s
  | _ => none

def toInteger? : Value → Option Int
  | .integer n => some n
  | _ => none

def toIntegerIn? (low high : Int) (v : Value) : Option Int :=
  v.toInteger?.filter fun n => low ≤ n && n < high

def toUInt8? (v : Value) : Option UInt8 :=
  (v.toIntegerIn? 0 0x100).map fun n => UInt8.ofNat n.toNat

def toUInt32? (v : Value) : Option UInt32 :=
  (v.toIntegerIn? 0 0x100000000).map fun n => UInt32.ofNat n.toNat

def toUInt64? (v : Value) : Option UInt64 :=
  (v.toIntegerIn? 0 0x10000000000000000).map fun n => UInt64.ofNat n.toNat

def toInt32? (v : Value) : Option Int32 :=
  (v.toIntegerIn? (-0x80000000) 0x80000000).map Int32.ofInt

def toInt64? (v : Value) : Option Int64 :=
  (v.toIntegerIn? (-0x8000000000000000) 0x8000000000000000).map Int64.ofInt

def toUInt256? (v : Value) : Option UInt256 := do
  UInt256.ofHexDigits? (← v.toText?).toList

def toList? {α : Type} (f : Value → Option α) : Value → Option (List α)
  | .list _ items => items.mapM f
  | _ => none

def isHollow : Value → Bool
  | .list _ items => items.isEmpty
  | .table _ fields => fields.isEmpty
  | _ => false

/-- A record as a look-up by field name. A list holds the fields in their order; the last ones may
be missing, and only the dialect of TOML lets a list go on after them. -/
def record? (d : Dialect) (names : List String) : Value → Option (String → Option Value)
  | .table _ fields => some fun name => fields.lookup name
  | .list _ items =>
    if d = .json ∧ names.length < items.length then none
    else some fun name => (names.zip items).lookup name
  | _ => none

/-- The name of an alternative without content: a text, or a table with the name as its only key. In
JSON the key holds null, in TOML an empty list or table. -/
def alternative? (d : Dialect) : Value → Option String
  | .text s => some s
  | .table _ [(name, content)] =>
    match d, content with
    | .json, .null => some name
    | .json, _ => none
    | .toml, content => if content.isHollow then some name else none
  | _ => none

def required {α : Type} (fields : String → Option Value) (name : String) (f : Value → Option α) :
    Option α := do
  f (← fields name)

def withDefault {α : Type} (fields : String → Option Value) (name : String) (default : α)
    (f : Value → Option α) : Option α :=
  match fields name with
  | some v => f v
  | none => some default

def optional {α : Type} (fields : String → Option Value) (name : String) (f : Value → Option α) :
    Option (Option α) :=
  match fields name with
  | none => some none
  | some .null => some none
  | some v => (f v).map some

end Value
end HeaderSync
