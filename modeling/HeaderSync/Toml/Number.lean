import HeaderSync.Text.Hex

/-!
# Numbers of TOML

A number is judged as one word. Underscores may stand between digits, a decimal number has no
leading zeros, and an integer must fit 64 bits.
-/

namespace HeaderSync.Toml
open Text

/-- Digits of a kind, at least one, with single underscores between them. -/
def isRun (isDigit : Char → Bool) : List Char → Bool
  | [] => false
  | [c] => isDigit c
  | c :: '_' :: d :: rest => isDigit c && isRun isDigit (d :: rest)
  | c :: rest => isDigit c && isRun isDigit rest

/-- A run of decimal digits that starts with zero only if it is zero. -/
def isPlain (cs : List Char) : Bool :=
  cs = ['0'] || (isRun Char.isDigit cs && cs.head? ≠ some '0')

def runValue (base : Nat) (cs : List Char) : Nat :=
  (cs.filter (· ≠ '_')).foldl (fun acc c => base * acc + (hexValue? c).getD 0) 0

def splitSign : List Char → Bool × List Char
  | '-' :: rest => (true, rest)
  | '+' :: rest => (false, rest)
  | cs => (false, cs)

def inBase? (base : Nat) (isDigit : Char → Bool) (cs : List Char) : Option Int :=
  if isRun isDigit cs && runValue base cs < 0x8000000000000000 then some (runValue base cs)
  else none

def integer? : List Char → Option Int
  | '0' :: 'x' :: rest => inBase? 16 (fun c => (hexValue? c).isSome) rest
  | '0' :: 'o' :: rest => inBase? 8 (fun c => '0' ≤ c && c ≤ '7') rest
  | '0' :: 'b' :: rest => inBase? 2 (fun c => c = '0' || c = '1') rest
  | cs =>
    let (negative, digits) := splitSign cs
    if !isPlain digits then none
    else
      let n := runValue 10 digits
      if negative then if n ≤ 0x8000000000000000 then some (-n) else none
      else if n < 0x8000000000000000 then some n else none

/-- A mantissa and an exponent of ten, of a word without sign that has a fraction, an exponent, or
both. -/
def decimal? (cs : List Char) : Option (Nat × Int) :=
  let mantissa := cs.takeWhile fun c => c ≠ 'e' && c ≠ 'E'
  let exponent := cs.dropWhile fun c => c ≠ 'e' && c ≠ 'E'
  let whole := mantissa.takeWhile (· ≠ '.')
  let fraction := mantissa.dropWhile (· ≠ '.')
  let (negative, power) := splitSign exponent.tail
  if isPlain whole && (fraction.isEmpty || isRun Char.isDigit fraction.tail) &&
      (exponent.isEmpty || isRun Char.isDigit power) && !(fraction.isEmpty && exponent.isEmpty) then
    let scale : Int := runValue 10 power
    some (runValue 10 (whole ++ fraction.tail),
      (if negative then -scale else scale) - (fraction.tail.filter (· ≠ '_')).length)
  else none

/-- Whether `mantissa * 10 ^ exponent` rounds beyond the greatest double. Numbers whose count of
digits settles it are not multiplied out. -/
def isHuge (mantissa : Nat) (exponent : Int) : Bool :=
  let magnitude : Int := (Nat.toDigits 10 mantissa).length + exponent
  if mantissa = 0 || magnitude < 300 then false
  else if 320 < magnitude then true
  else
    ((1 <<< 1024) - (1 <<< 970)) * Nat.pow 10 (-exponent).toNat ≤
      mantissa * Nat.pow 10 exponent.toNat

/-- A word that is a floating-point number. One above the greatest double is refused, its negative
is not. -/
def isFloat (cs : List Char) : Bool :=
  let (negative, magnitude) := splitSign cs
  magnitude = ['i', 'n', 'f'] || magnitude = ['n', 'a', 'n'] ||
    match decimal? magnitude with
    | some (mantissa, exponent) => negative || !isHuge mantissa exponent
    | none => false

end HeaderSync.Toml
