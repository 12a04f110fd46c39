import HeaderSync.Params.Document
import HeaderSync.Params.Validity
import HeaderSync.Toml.Statement
import HeaderSync.Toml.Writer

/-!
# Parameter files

A parameter file is a TOML text in UTF-8. Only parameters that miss no requirement are written or
accepted.
-/

namespace HeaderSync.Params

inductive FileError where
  | notText
  | malformed
  | unwritable
  | invalid (flaw : Flaw)
deriving DecidableEq

def save (p : Params) : Except FileError String :=
  match p.check with
  | .error flaw => .error (.invalid flaw)
  | .ok () =>
    match Toml.write? p.toFields with
    | some cs => .ok (String.ofList cs)
    | none => .error .unwritable

def ofText (text : String) : Except FileError Params :=
  match (Toml.read text).bind (ofValue? .toml) with
  | none => .error .malformed
  | some p =>
    match p.check with
    | .error flaw => .error (.invalid flaw)
    | .ok () => .ok p

def load (bytes : ByteArray) : Except FileError Params :=
  match String.fromUTF8? bytes with
  | none => .error .notText
  | some text => ofText text

end HeaderSync.Params
