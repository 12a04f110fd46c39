import HeaderSync.Document
import HeaderSync.Toml.Moment
import HeaderSync.Toml.Number
import HeaderSync.Toml.Quoted
import HeaderSync.Toml.Source
import HeaderSync.Toml.Table

/-!
# Statements of TOML

A text is a sequence of statements: a header opens a table or adds one to a list of tables, and an
entry gives a key its value. A reader returns what it read and the characters after it.
-/

namespace HeaderSync.Toml

/-- A key of more than this many parts, or a value nested deeper, is refused. -/
def maxDepth : Nat := 79

def isBare (c : Char) : Bool := c.isAlphanum || c = '_' || c = '-'

def keyPart (cs : List Char) : Option (String × List Char) :=
  match cs with
  | '\x22' :: _ => quotedLine cs
  | '\x27' :: _ => quotedLine cs
  | _ =>
    if (cs.takeWhile isBare).isEmpty then none
    else some (String.ofList (cs.takeWhile isBare), cs.dropWhile isBare)

def key : (limit : Nat) → List Char → Option (Key × List Char)
  | 0, _ => none
  | limit + 1, cs => do
    let (part, rest) ← keyPart (skipSpace cs)
    match skipSpace rest with
    | '.' :: rest =>
      let (more, rest) ← key limit rest
      return (⟨part :: more.path, more.name⟩, rest)
    | rest => return (⟨[], part⟩, rest)

def keyEquals (cs : List Char) : Option (Key × List Char) := do
  match ← key maxDepth cs with
  | (k, '=' :: rest) => some (k, skipSpace rest)
  | _ => none

def isWordChar (c : Char) : Bool :=
  c.isAlphanum || c = '_' || c = '+' || c = '-' || c = '.' || c = ':'

def wordValue? (word : List Char) : Option Value :=
  if word = ['t', 'r', 'u', 'e'] then some (.boolean true)
  else if word = ['f', 'a', 'l', 's', 'e'] then some (.boolean false)
  else if isMoment word then some (.time (String.ofList word))
  else if isFloat word then some (.float (String.ofList word))
  else (integer? word).map .integer

/-- A word, or a date and the time of day after one space. -/
def bareValue (cs : List Char) : Option (Value × List Char) :=
  let word := cs.takeWhile isWordChar
  let rest := cs.dropWhile isWordChar
  match rest with
  | ' ' :: d :: more =>
    if isDate word && d.isDigit then
      let clock := (d :: more).takeWhile isWordChar
      if isOffsetTime clock then
        some (.time (String.ofList (word ++ ' ' :: clock)), (d :: more).dropWhile isWordChar)
      else none
    else (wordValue? word).map (·, rest)
  | _ => (wordValue? word).map (·, rest)

mutual

def value : (fuel depth : Nat) → List Char → Option (Value × List Char)
  | 0, _, _ => none
  | _ + 1, 0, '[' :: _ => none
  | _ + 1, 0, '\x7b' :: _ => none
  | fuel + 1, depth + 1, '[' :: rest => do
    let (items, rest) ← items fuel depth rest
    return (.list .inline items, rest)
  | fuel + 1, depth + 1, '\x7b' :: rest => do
    match skipSpace rest with
    | '\x7d' :: rest => return (.table .inline [], rest)
    | rest =>
      let (entries, rest) ← entries fuel depth rest
      let table ← Table.ofEntries? entries
      return (.table .inline table.fields, rest)
  | _ + 1, _, '\x22' :: rest => (quoted ('\x22' :: rest)).map fun (s, rest) => (.text s, rest)
  | _ + 1, _, '\x27' :: rest => (quoted ('\x27' :: rest)).map fun (s, rest) => (.text s, rest)
  | _ + 1, _, cs => bareValue cs

def items : (fuel depth : Nat) → List Char → Option (List Value × List Char)
  | 0, _, _ => none
  | fuel + 1, depth, cs =>
    match skipLines false cs with
    | ']' :: rest => some ([], rest)
    | cs => do
      let (v, rest) ← value fuel depth cs
      match skipLines false rest with
      | ']' :: rest => return ([v], rest)
      | ',' :: rest =>
        let (vs, rest) ← items fuel depth rest
        return (v :: vs, rest)
      | _ => none

def entries : (fuel depth : Nat) → List Char → Option (List (Key × Value) × List Char)
  | 0, _, _ => none
  | fuel + 1, depth, cs => do
    let (k, rest) ← keyEquals cs
    let (v, rest) ← value fuel depth rest
    match skipSpace rest with
    | '\x7d' :: rest => return ([(k, v)], rest)
    | ',' :: rest =>
      let (more, rest) ← entries fuel depth rest
      return ((k, v) :: more, rest)
    | _ => none

end

def statement (cs : List Char) : Option (Statement × List Char) :=
  match cs with
  | '[' :: '[' :: rest => do
    match ← key maxDepth rest with
    | (k, ']' :: ']' :: rest) => return (.element k, ← endLine rest)
    | _ => none
  | '[' :: rest => do
    match ← key maxDepth rest with
    | (k, ']' :: rest) => return (.section k, ← endLine rest)
    | _ => none
  | _ => do
    let (k, rest) ← keyEquals cs
    let (v, rest) ← value (2 * cs.length + 2) maxDepth rest
    return (.entry k v, ← endLine rest)

def statements : (fuel : Nat) → List Char → Option (List Statement)
  | 0, _ => none
  | fuel + 1, cs =>
    match skipLines false cs with
    | [] => some []
    | cs => do
      let (s, rest) ← statement cs
      return s :: (← statements fuel rest)

def read (text : String) : Option Value := do
  let cs ← source text.toList
  let table ← Table.ofStatements? (← statements (cs.length + 1) cs)
  return .table .header table.fields

end HeaderSync.Toml
