/-!
# Dates and times of TOML

A date, a time of day, or both joined by a letter `T`, the latter also with an offset.
-/

namespace HeaderSync.Toml

def pair? (a b : Char) : Option Nat :=
  if a.isDigit && b.isDigit then some (10 * (a.toNat - 48) + (b.toNat - 48)) else none

def isLeap (year : Nat) : Bool := year % 4 = 0 && (year % 100 ≠ 0 || year % 400 = 0)

def daysIn (year month : Nat) : Nat :=
  if month = 2 then if isLeap year then 29 else 28
  else if month = 4 || month = 6 || month = 9 || month = 11 then 30
  else 31

def afterDate : List Char → Option (List Char)
  | y₁ :: y₂ :: y₃ :: y₄ :: '-' :: m₁ :: m₂ :: '-' :: d₁ :: d₂ :: rest => do
    let year := 100 * (← pair? y₁ y₂) + (← pair? y₃ y₄)
    let month ← pair? m₁ m₂
    let day ← pair? d₁ d₂
    if 1 ≤ month && month ≤ 12 && 1 ≤ day && day ≤ daysIn year month then some rest else none
  | _ => none

def afterMinutes : List Char → Option (List Char)
  | h₁ :: h₂ :: ':' :: m₁ :: m₂ :: rest => do
    if (← pair? h₁ h₂) < 24 && (← pair? m₁ m₂) < 60 then some rest else none
  | _ => none

/-- The characters after a time of day with seconds, of which there may be 60 and a fraction. -/
def afterTime (cs : List Char) : Option (List Char) := do
  match ← afterMinutes cs with
  | ':' :: s₁ :: s₂ :: rest =>
    if 60 < (← pair? s₁ s₂) then none
    else
      match rest with
      | '.' :: c :: rest => if c.isDigit then some (rest.dropWhile Char.isDigit) else none
      | rest => some rest
  | _ => none

def isOffsetTime (cs : List Char) : Bool :=
  match afterTime cs with
  | some [] => true
  | some [c] => c = 'Z' || c = 'z'
  | some (c :: rest) => (c = '+' || c = '-') && afterMinutes rest = some []
  | none => false

def isDate (cs : List Char) : Bool := afterDate cs = some []

def isMoment (cs : List Char) : Bool :=
  afterTime cs = some [] ||
    match afterDate cs with
    | some [] => true
    | some (c :: rest) => (c = 'T' || c = 't') && isOffsetTime rest
    | none => false

end HeaderSync.Toml
