import HeaderSync.Text.Blank
import HeaderSync.Text.Hex
import HeaderSync.Text.Quoted
import HeaderSync.UInt256

/-!
# Hexadecimal text of 256-bit numbers

A number is written as `0x` and 64 lower-case digits. Reading is wider: blanks around the text are
dropped, then any number of `0x`, then any number of `0X`; up to 64 characters remain, read in
pairs from the right. A pair is two digits in either case, or a plus sign and one digit.
-/

namespace HeaderSync

structure InvalidHex where
  text : String
deriving DecidableEq

def InvalidHex.message (e : InvalidHex) : String :=
  "invalid 256-bit hex value: " ++ Text.quote e.text

namespace UInt256
open Text

def toHexDigits (value : UInt256) : List Char := '0' :: 'x' :: hexDigits 64 value.toNat

def toHex (value : UInt256) : String := String.ofList value.toHexDigits

/-- A text without the marks, each a zero and the given letter, that stand in front of it. -/
def dropMarks (letter : Char) : List Char → List Char
  | '0' :: c :: rest => if c = letter then dropMarks letter rest else '0' :: c :: rest
  | cs => cs

def pairValue? (high low : Char) : Option Nat :=
  if high = '+' then hexValue? low
  else do return 16 * (← hexValue? high) + (← hexValue? low)

/-- The number whose base-256 digits are the pairs of a text, most significant first. -/
def pairsValue? (acc : Nat) : List Char → Option Nat
  | [] => some acc
  | [_] => none
  | high :: low :: rest => do
    let byte ← pairValue? high low
    pairsValue? (256 * acc + byte) rest

def padded (cs : List Char) : List Char := List.replicate (64 - cs.length) '0' ++ cs

def ofHexDigits? (cs : List Char) : Option UInt256 :=
  let digits := dropMarks 'X' (dropMarks 'x' (trim cs))
  if digits.isEmpty || 64 < digits.length then none
  else (pairsValue? 0 (padded digits)).map wrap

def ofHex (text : String) : Except InvalidHex UInt256 :=
  match ofHexDigits? text.toList with
  | some value => .ok value
  | none => .error ⟨text⟩

end UInt256
end HeaderSync
