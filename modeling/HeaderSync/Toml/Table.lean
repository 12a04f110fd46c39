import HeaderSync.Document

/-!
# Assembling TOML tables

Statements fill a tree of tables. A key is set once; a table is opened by a header once, unless it
was only implied so far; a list of tables grows at its end; and the path of a dotted key passes only
through tables that no header has opened.
-/

namespace HeaderSync.Toml

structure Key where
  path : List String
  name : String

inductive Statement where
  /-- A key and its value. -/
  | entry (key : Key) (value : Value)
  /-- A header that opens a table. -/
  | section (key : Key)
  /-- A header that adds a table to a list. -/
  | element (key : Key)

structure Table where
  form : Form
  fields : List (String × Value)

namespace Table

def get? (t : Table) (name : String) : Option Value := t.fields.lookup name

def put (t : Table) (name : String) (v : Value) : Table :=
  if (t.get? name).isSome then
    { t with fields := t.fields.map fun (n, w) => if n = name then (n, v) else (n, w) }
  else { t with fields := t.fields ++ [(name, v)] }

def erase (t : Table) (name : String) : Table :=
  { t with fields := t.fields.filter (·.1 ≠ name) }

def isPassable (dotted : Bool) : Form → Bool
  | .inline => false
  | .header => !dotted
  | .implied => true
  | .dotted => true

/-- Change the table at the end of a path. Missing tables on the way are added, and a list of tables
stands for its last one. -/
def modifyAt (dotted : Bool) (act : Table → Option Table) :
    (path : List String) → Table → Option Table
  | [], t => act t
  | name :: path, t =>
    match t.get? name with
    | none => do
      let inner ← modifyAt dotted act path ⟨if dotted then .dotted else .implied, []⟩
      return t.put name (.table inner.form inner.fields)
    | some (.table form fields) =>
      if isPassable dotted form then do
        let inner ← modifyAt dotted act path ⟨form, fields⟩
        return t.put name (.table inner.form inner.fields)
      else none
    | some (.list .header items) =>
      match items.getLast? with
      | some (.table form fields) => do
        let inner ← modifyAt dotted act path ⟨form, fields⟩
        return t.put name (.list .header (items.dropLast ++ [.table inner.form inner.fields]))
      | _ => none
    | some _ => none

/-- Set a key that is not set yet. A dotted key ends in a table of dotted keys, and another key in a
table of another form. -/
def set (k : Key) (v : Value) : Table → Option Table :=
  modifyAt true (fun t =>
    if (t.form = .dotted ↔ k.path = []) then none
    else if (t.get? k.name).isSome then none
    else some (t.put k.name v)) k.path

/-- Open the table of a header; one that was implied moves to the end with what it holds. -/
def openTable (k : Key) : Table → Option Table :=
  modifyAt false (fun t =>
    match t.get? k.name with
    | none => some (t.put k.name (.table .header []))
    | some (.table .implied fields) => some ((t.erase k.name).put k.name (.table .header fields))
    | some _ => none) k.path

def appendTable (k : Key) : Table → Option Table :=
  modifyAt false (fun t =>
    match t.get? k.name with
    | none => some (t.put k.name (.list .header [.table .header []]))
    | some (.list .header items) =>
      some (t.put k.name (.list .header (items ++ [.table .header []])))
    | some _ => none) k.path

/-- The root after some statements; entries go to the table at `current`, the last header's. -/
def run (current : List String) (root : Table) : List Statement → Option Table
  | [] => some root
  | .entry k v :: rest => do run current (← modifyAt false (set k v) current root) rest
  | .section k :: rest => do run (k.path ++ [k.name]) (← openTable k root) rest
  | .element k :: rest => do run (k.path ++ [k.name]) (← appendTable k root) rest

def ofStatements? (statements : List Statement) : Option Table := run [] ⟨.header, []⟩ statements

def ofEntries? (entries : List (Key × Value)) : Option Table :=
  entries.foldlM (fun t (k, v) => set k v t) ⟨.inline, []⟩

end Table
end HeaderSync.Toml
