import HeaderSync.Text.Escaped

/-!
# Quoted text

A text between double quotes, in which quotes, backslashes and characters without a printed form
are escaped.
-/

namespace HeaderSync.Text

def codePoint (c : Char) : String := String.ofList (Nat.toDigits 16 c.toNat)

def escape (c : Char) : String :=
  if c = '"' then "\\\""
  else if c = '\\' then "\\\\"
  else if c = '\n' then "\\n"
  else if c = '\t' then "\\t"
  else if c = '\r' then "\\r"
  else if c = '\x00' then "\\0"
  else if isEscaped c then "\\u\x7b" ++ codePoint c ++ "\x7d"
  else String.singleton c

def quote (s : String) : String :=
  "\"" ++ String.join (s.toList.map escape) ++ "\""

end HeaderSync.Text
