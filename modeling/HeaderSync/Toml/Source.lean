/-!
# The characters of a TOML text

Carriage returns count only as part of a line end, and no production holds a control character other
than the tab and the line feed. Both are settled before a text is read, so that the productions see
plain lines.
-/

namespace HeaderSync.Toml

def joinLineEnds : List Char → List Char
  | '\r' :: '\n' :: rest => '\n' :: joinLineEnds rest
  | c :: rest => c :: joinLineEnds rest
  | [] => []

def isAllowed (c : Char) : Bool :=
  c = '\t' || c = '\n' || (0x20 ≤ c.toNat && c.toNat ≠ 0x7f)

def dropMark : List Char → List Char
  | '\uFEFF' :: rest => rest
  | cs => cs

def source (cs : List Char) : Option (List Char) :=
  let cs := joinLineEnds (dropMark cs)
  if cs.all isAllowed then some cs else none

def isSpace (c : Char) : Bool := c = ' ' || c = '\t'

def skipSpace (cs : List Char) : List Char := cs.dropWhile isSpace

/-- The characters after blanks, line ends and comments; the flag tells that a comment is open. -/
def skipLines (comment : Bool) : List Char → List Char
  | [] => []
  | c :: rest =>
    if c = '\n' then skipLines false rest
    else if comment then skipLines true rest
    else if isSpace c then skipLines false rest
    else if c = '#' then skipLines true rest
    else c :: rest

def endLine (cs : List Char) : Option (List Char) :=
  match skipSpace cs with
  | [] => some []
  | '\n' :: rest => some rest
  | '#' :: rest => some (rest.dropWhile (· ≠ '\n')).tail
  | _ => none

end HeaderSync.Toml
