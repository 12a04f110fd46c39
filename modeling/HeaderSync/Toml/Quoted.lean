import HeaderSync.Text.Hex

/-!
# Quoted texts of TOML

A quoted text is found first, up to its closing mark, and its escapes are resolved afterwards.
Between double quotes a backslash starts an escape; between single quotes every character stands for
itself. Three marks open a text of several lines, which may end in up to two marks of its own.
-/

namespace HeaderSync.Toml
open Text

def untilQuote : List Char → Option (List Char × List Char)
  | [] => none
  | '\x22' :: rest => some ([], rest)
  | '\\' :: c :: rest => (untilQuote rest).map fun (raw, after) => ('\\' :: c :: raw, after)
  | c :: rest =>
    if c = '\n' then none else (untilQuote rest).map fun (raw, after) => (c :: raw, after)

def untilQuotes : List Char → Option (List Char × List Char)
  | [] => none
  | '\x22' :: '\x22' :: '\x22' :: '\x22' :: '\x22' :: rest => some (['\x22', '\x22'], rest)
  | '\x22' :: '\x22' :: '\x22' :: '\x22' :: rest => some (['\x22'], rest)
  | '\x22' :: '\x22' :: '\x22' :: rest => some ([], rest)
  | '\\' :: c :: rest => (untilQuotes rest).map fun (raw, after) => ('\\' :: c :: raw, after)
  | c :: rest => (untilQuotes rest).map fun (raw, after) => (c :: raw, after)

def untilApostrophe : List Char → Option (List Char × List Char)
  | [] => none
  | '\x27' :: rest => some ([], rest)
  | c :: rest =>
    if c = '\n' then none else (untilApostrophe rest).map fun (raw, after) => (c :: raw, after)

def untilApostrophes : List Char → Option (List Char × List Char)
  | [] => none
  | '\x27' :: '\x27' :: '\x27' :: '\x27' :: '\x27' :: rest => some (['\x27', '\x27'], rest)
  | '\x27' :: '\x27' :: '\x27' :: '\x27' :: rest => some (['\x27'], rest)
  | '\x27' :: '\x27' :: '\x27' :: rest => some ([], rest)
  | c :: rest => (untilApostrophes rest).map fun (raw, after) => (c :: raw, after)

def escaped? : Char → Option Char
  | 'b' => some '\x08'
  | 't' => some '\t'
  | 'n' => some '\n'
  | 'f' => some '\x0c'
  | 'r' => some '\r'
  | '\x22' => some '\x22'
  | '\\' => some '\\'
  | _ => none

def numbered? (digits : List Char) : Option Char := do
  let values ← digits.mapM hexValue?
  let n := values.foldl (fun acc d => 16 * acc + d) 0
  if n.isValidChar then some (Char.ofNat n) else none

def unescape : List Char → Option (List Char)
  | [] => some []
  | '\\' :: 'u' :: a :: b :: c :: d :: rest => do
    return (← numbered? [a, b, c, d]) :: (← unescape rest)
  | '\\' :: 'U' :: a :: b :: c :: d :: e :: f :: g :: h :: rest => do
    return (← numbered? [a, b, c, d, e, f, g, h]) :: (← unescape rest)
  | '\\' :: c :: rest => do return (← escaped? c) :: (← unescape rest)
  | '\\' :: [] => none
  | c :: rest => do return c :: (← unescape rest)

/-- Where the removal of an escaped line end stands. -/
inductive Joint where
  /-- Outside of one. -/
  | text
  /-- After the backslash, before the line end. -/
  | opened
  /-- After the line end. -/
  | closing
deriving DecidableEq

/-- A text without escaped line ends: each goes together with the blanks and line ends after it. -/
def joinLines : Joint → List Char → Option (List Char)
  | joint, [] => if joint = .opened then none else some []
  | .opened, c :: rest =>
    if c = '\n' then joinLines .closing rest
    else if c = ' ' ∨ c = '\t' then joinLines .opened rest
    else none
  | joint, c :: rest =>
    if joint = .closing ∧ (c = ' ' ∨ c = '\t' ∨ c = '\n') then joinLines .closing rest
    else if c = '\\' then
      match rest with
      | [] => none
      | e :: rest =>
        if e = '\n' then joinLines .closing rest
        else if e = ' ' ∨ e = '\t' then joinLines .opened rest
        else (joinLines .text rest).map fun cs => '\\' :: e :: cs
    else (joinLines .text rest).map (c :: ·)

/-- A line end at the very start of a text of several lines is dropped. -/
def dropLineEnd : List Char → List Char
  | '\n' :: rest => rest
  | cs => cs

def quotedLine : List Char → Option (String × List Char)
  | '\x22' :: rest => do
    let (raw, after) ← untilQuote rest
    return (String.ofList (← unescape raw), after)
  | '\x27' :: rest => do
    let (raw, after) ← untilApostrophe rest
    return (String.ofList raw, after)
  | _ => none

def quoted : List Char → Option (String × List Char)
  | '\x22' :: '\x22' :: '\x22' :: rest => do
    let (raw, after) ← untilQuotes (dropLineEnd rest)
    return (String.ofList (← unescape (← joinLines .text raw)), after)
  | '\x27' :: '\x27' :: '\x27' :: rest => do
    let (raw, after) ← untilApostrophes (dropLineEnd rest)
    return (String.ofList raw, after)
  | cs => quotedLine cs

end HeaderSync.Toml
