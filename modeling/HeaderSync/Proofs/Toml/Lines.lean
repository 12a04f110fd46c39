import HeaderSync.Proofs.Toml.Scalar
import Mathlib.Data.List.Basic

/-!
# Written tables are read back as statements

Each field of a written table is one line, which is an entry, and each table of a list starts with a
header. A text is read statement by statement, so the statements of the parts of a written table
follow each other in the order in which they were written.
-/

namespace HeaderSync.Toml

variable {c : Char} {cs cs' rest : List Char} {s : Statement} {ss ss' : List Statement}
  {name : String} {v : Value} {fields : List (String × Value)} {limit : Nat}

def IsBareName (name : String) : Prop := name.toList ≠ [] ∧ name.toList.all isBare

instance (name : String) : Decidable (IsBareName name) := inferInstanceAs (Decidable (_ ∧ _))

theorem IsBareName.isBare (h : IsBareName name) : ∀ c ∈ name.toList, isBare c :=
  List.all_eq_true.mp h.2

theorem IsBareName.exists_cons (h : IsBareName name) :
    ∃ c cs, name.toList = c :: cs ∧ ∀ e ∈ c :: cs, Toml.isBare e := by
  obtain ⟨c, cs, heq⟩ := List.exists_cons_of_ne_nil h.1
  exact ⟨c, cs, heq, heq ▸ h.isBare⟩

theorem isWordChar_of_isBare (h : isBare c) : isWordChar c := by
  simp only [isBare, Bool.or_eq_true, decide_eq_true_eq] at h
  rcases h with (h | rfl) | rfl
  · simp [isWordChar, h]
  · rfl
  · rfl

theorem skipSpace_of_isWordChar (h : isWordChar c) : skipSpace (c :: cs) = c :: cs := by
  have hblank : c ≠ ' ' := ne_of_holds h rfl
  have htab : c ≠ '\t' := ne_of_holds h rfl
  exact List.dropWhile_cons_of_neg (by simp [isSpace, hblank, htab])

/-- A bare name is read up to the first character that cannot belong to it. -/
theorem keyPart_bare (hname : IsBareName name) (hc : isBare c = false) :
    keyPart (name.toList ++ c :: cs) = some (name, c :: cs) := by
  have htake : (name.toList ++ c :: cs).takeWhile isBare = name.toList := by
    rw [List.takeWhile_append_of_pos hname.isBare,
      List.takeWhile_cons_of_neg (Bool.eq_false_iff.mp hc), List.append_nil]
  have hdrop : (name.toList ++ c :: cs).dropWhile isBare = c :: cs := by
    rw [List.dropWhile_append_of_pos hname.isBare,
      List.dropWhile_cons_of_neg (Bool.eq_false_iff.mp hc)]
  obtain ⟨e, es, heq, hall⟩ := hname.exists_cons
  have he := hall e List.mem_cons_self
  rw [keyPart, htake, hdrop, String.ofList_toList, heq]
  · rfl
  · exact fun more h => ne_of_holds he rfl (List.cons.inj (heq ▸ h)).1
  · exact fun more h => ne_of_holds he rfl (List.cons.inj (heq ▸ h)).1

theorem key_bare (hname : IsBareName name) (hc : isBare c = false)
    (hdot : ∀ more, skipSpace (c :: cs) ≠ '.' :: more) :
    key (limit + 1) (name.toList ++ c :: cs) = some (⟨[], name⟩, skipSpace (c :: cs)) := by
  have hspace : skipSpace (name.toList ++ c :: cs) = name.toList ++ c :: cs := by
    obtain ⟨e, es, heq, hall⟩ := hname.exists_cons
    rw [heq]
    exact skipSpace_of_isWordChar (isWordChar_of_isBare (hall e List.mem_cons_self))
  rw [key, hspace, keyPart_bare hname hc]
  simp only [Option.bind_eq_bind, Option.bind_some]
  rfl

theorem skipSpace_writeScalar? (h : writeScalar? v = some cs) :
    skipSpace (cs ++ rest) = cs ++ rest := by
  rcases written_cases h with ⟨hne, hword, -⟩ | ⟨text, -, rfl, -⟩
  · obtain ⟨c, cs, rfl⟩ := List.exists_cons_of_ne_nil hne
    exact skipSpace_of_isWordChar (hword c List.mem_cons_self)
  · rfl

theorem keyEquals_writeField? (rest : List Char) (hname : IsBareName name)
    (h : writeScalar? v = some cs) :
    keyEquals (name.toList ++ " = ".toList ++ cs ++ ['\n'] ++ rest) =
      some (⟨[], name⟩, cs ++ '\n' :: rest) := by
  have hsplit : name.toList ++ " = ".toList ++ cs ++ ['\n'] ++ rest =
      name.toList ++ ' ' :: '=' :: ' ' :: (cs ++ '\n' :: rest) := by
    simp
  have hspace : skipSpace (' ' :: '=' :: ' ' :: (cs ++ '\n' :: rest)) =
      '=' :: ' ' :: (cs ++ '\n' :: rest) := rfl
  have hvalue : skipSpace (' ' :: (cs ++ '\n' :: rest)) = cs ++ '\n' :: rest :=
    skipSpace_writeScalar? h
  rw [hsplit, keyEquals, maxDepth, key_bare hname rfl (by simp [hspace]), hspace]
  simp only [Option.bind_eq_bind, Option.bind_some, hvalue]

theorem statement_writeField? (hname : IsBareName name) (h : writeField? name v = some cs) :
    statement (cs ++ rest) = some (.entry ⟨[], name⟩ v, rest) := by
  obtain ⟨scalar, hscalar, hcs⟩ := Option.bind_eq_some_iff.mp h
  cases hcs
  have hequals := keyEquals_writeField? rest hname hscalar
  obtain ⟨c, cs, heq, hall⟩ := hname.exists_cons
  have hhead : c ≠ '[' := ne_of_holds (hall c List.mem_cons_self) rfl
  rw [heq] at hequals ⊢
  simp only [List.cons_append] at hequals ⊢
  rw [statement, hequals]
  · simp only [Option.bind_eq_bind, Option.bind_some, value_writeScalar? hscalar, maxDepth]
    rfl
  · exact fun more h => hhead (List.cons.inj h).1
  · exact fun more h => hhead (List.cons.inj h).1

theorem statement_header (hname : IsBareName name) :
    statement ("[[".toList ++ name.toList ++ "]]\n".toList ++ rest) =
      some (.element ⟨[], name⟩, rest) := by
  have hsplit : "[[".toList ++ name.toList ++ "]]\n".toList ++ rest =
      '[' :: '[' :: (name.toList ++ ']' :: ']' :: '\n' :: rest) := by
    simp
  rw [hsplit, statement, maxDepth, key_bare hname rfl (by simp [skipSpace, isSpace])]
  rfl

theorem isAllowed_of_toNat (hlow : 0x20 ≤ c.toNat) (hhigh : c.toNat < 0x7f) : isAllowed c := by
  have hne : c.toNat ≠ 0x7f := Nat.ne_of_lt hhigh
  simp [isAllowed, hlow, hne]

theorem toNat_of_isAlphanum (h : c.isAlphanum) : 48 ≤ c.toNat ∧ c.toNat ≤ 122 := by
  have hkinds : (decide (65 ≤ c.val ∧ c.val ≤ 90) ||
      (decide (97 ≤ c.val) && decide (c.val ≤ 122)) ||
        (decide (48 ≤ c.val) && decide (c.val ≤ 57))) = true := h
  simp only [Bool.or_eq_true, Bool.and_eq_true, decide_eq_true_eq, UInt32.le_iff_toNat_le]
    at hkinds
  have hranges : (65 ≤ c.toNat ∧ c.toNat ≤ 90 ∨ 97 ≤ c.toNat ∧ c.toNat ≤ 122) ∨
      48 ≤ c.toNat ∧ c.toNat ≤ 57 := hkinds
  omega

theorem isAllowed_of_isWordChar (h : isWordChar c) : isAllowed c := by
  simp only [isWordChar, Bool.or_eq_true, decide_eq_true_eq] at h
  rcases h with ((((h | rfl) | rfl) | rfl) | rfl) | rfl
  · have hrange := toNat_of_isAlphanum h
    exact isAllowed_of_toNat (by omega) (by omega)
  all_goals rfl

theorem isAllowed_of_isVerbatim (h : isVerbatim c) : isAllowed c := by
  simp only [isVerbatim, Bool.and_eq_true] at h
  rw [isAllowed, Bool.or_eq_true, Bool.and_eq_true]
  exact .inr h.1.1

theorem isAllowed_of_mem_writeScalar? (h : writeScalar? v = some cs) (hc : c ∈ cs) :
    isAllowed c := by
  rcases written_cases h with ⟨-, hword, -⟩ | ⟨text, htext, rfl, -⟩
  · exact isAllowed_of_isWordChar (hword c hc)
  · rcases List.mem_append.mp hc with hc | hc
    · rcases List.mem_cons.mp hc with rfl | hc
      · rfl
      · exact isAllowed_of_isVerbatim (htext c hc)
    · rw [List.mem_singleton.mp hc]
      rfl

/-- Whether a text is read as the given statements. None of its characters is refused or dropped,
and any fuel above their number is enough. -/
structure Spells (cs : List Char) (ss : List Statement) : Prop where
  allowed : ∀ c ∈ cs, isAllowed c
  head_ne : cs.head? ≠ some '\uFEFF'
  statements : ∀ fuel, cs.length < fuel → statements fuel cs = some ss

/-- Whether characters add the given statements in front of those of any text after them. -/
def Adds (cs : List Char) (ss : List Statement) : Prop :=
  ∀ rest more, Spells rest more → Spells (cs ++ rest) (ss ++ more)

theorem spells_nil : Spells [] [] where
  allowed := by simp
  head_ne := by simp
  statements fuel h := by
    obtain ⟨fuel, rfl⟩ := Nat.exists_eq_succ_of_ne_zero (Nat.ne_zero_of_lt h)
    rfl

theorem adds_nil : Adds [] [] := fun _ _ h => h

theorem Adds.append (h : Adds cs ss) (h' : Adds cs' ss') : Adds (cs ++ cs') (ss ++ ss') := by
  intro rest more hrest
  rw [List.append_assoc, List.append_assoc]
  exact h _ _ (h' _ _ hrest)

theorem adds_lineEnd : Adds ['\n'] [] := by
  intro rest more hrest
  refine ⟨?_, by simp, ?_⟩
  · intro c hc
    rcases List.mem_cons.mp hc with rfl | hc
    · rfl
    · exact hrest.allowed c hc
  · intro fuel hfuel
    obtain ⟨fuel, rfl⟩ := Nat.exists_eq_succ_of_ne_zero (Nat.ne_zero_of_lt hfuel)
    have hlines := hrest.statements (fuel + 1) (Nat.lt_of_succ_lt hfuel)
    rw [statements] at hlines ⊢
    exact hlines

/-- A line that starts with a bare name or a bracket adds one statement. -/
theorem adds_statement (hc : isBare c ∨ c = '[') (hallowed : ∀ e ∈ c :: cs, isAllowed e)
    (h : ∀ rest, statement (c :: cs ++ rest) = some (s, rest)) : Adds (c :: cs) [s] := by
  intro rest more hrest
  have hne : ∀ e, isBare e = false → e ≠ '[' → c ≠ e := by
    intro e he hbracket
    rcases hc with hc | rfl
    · exact ne_of_holds hc he
    · exact hbracket.symm
  refine ⟨?_, ?_, ?_⟩
  · intro e he
    rcases List.mem_append.mp he with he | he
    · exact hallowed e he
    · exact hrest.allowed e he
  · intro hmark
    exact hne '\uFEFF' rfl (by decide) (Option.some.inj hmark)
  · intro fuel hfuel
    obtain ⟨fuel, rfl⟩ := Nat.exists_eq_succ_of_ne_zero (Nat.ne_zero_of_lt hfuel)
    have hskip : skipLines false (c :: cs ++ rest) = c :: cs ++ rest := by
      simp [skipLines, isSpace, hne '\n' rfl (by decide), hne ' ' rfl (by decide),
        hne '\t' rfl (by decide), hne '#' rfl (by decide)]
    have hlength : rest.length < fuel := by
      rw [List.length_append, List.length_cons] at hfuel
      omega
    have hread : statement (c :: (cs ++ rest)) = some (s, rest) := h rest
    rw [statements, hskip, List.cons_append]
    simp [hread, hrest.statements fuel hlength]

theorem adds_writeField? (hname : IsBareName name) (h : writeField? name v = some cs) :
    Adds cs [.entry ⟨[], name⟩ v] := by
  have hread : ∀ rest, statement (cs ++ rest) = some (.entry ⟨[], name⟩ v, rest) := fun _ =>
    statement_writeField? hname h
  obtain ⟨scalar, hscalar, hcs⟩ := Option.bind_eq_some_iff.mp h
  cases hcs
  have hallowed : ∀ e ∈ name.toList ++ " = ".toList ++ scalar ++ ['\n'], isAllowed e := by
    simp only [List.mem_append]
    rintro e (((he | he) | he) | he)
    · exact isAllowed_of_isWordChar (isWordChar_of_isBare (hname.isBare e he))
    · exact List.all_eq_true.mp rfl e he
    · exact isAllowed_of_mem_writeScalar? hscalar he
    · exact List.all_eq_true.mp rfl e he
  obtain ⟨c, cs, heq, hall⟩ := hname.exists_cons
  rw [heq] at hread hallowed ⊢
  exact adds_statement (.inl (hall c List.mem_cons_self)) hallowed hread

theorem adds_header (hname : IsBareName name) :
    Adds ("[[".toList ++ name.toList ++ "]]\n".toList) [.element ⟨[], name⟩] := by
  have hallowed : ∀ e ∈ "[[".toList ++ name.toList ++ "]]\n".toList, isAllowed e := by
    simp only [List.mem_append]
    rintro e ((he | he) | he)
    · exact List.all_eq_true.mp rfl e he
    · exact isAllowed_of_isWordChar (isWordChar_of_isBare (hname.isBare e he))
    · exact List.all_eq_true.mp rfl e he
  exact adds_statement (c := '[') (.inr rfl) hallowed fun rest => statement_header hname

/-- Characters that are written part by part add the statements of each part. -/
theorem adds_flatten {α : Type} {f : α → Option (List Char)} {g : α → List Statement} {xs : List α}
    {parts : List (List Char)} (h : xs.mapM f = some parts)
    (hf : ∀ x ∈ xs, ∀ cs, f x = some cs → Adds cs (g x)) : Adds parts.flatten (xs.flatMap g) := by
  induction xs generalizing parts with
  | nil =>
    cases h
    exact adds_nil
  | cons x xs ih =>
    rw [List.mapM_cons] at h
    obtain ⟨part, hpart, h⟩ := Option.bind_eq_some_iff.mp h
    obtain ⟨more, hmore, h⟩ := Option.bind_eq_some_iff.mp h
    cases h
    rw [List.flatten_cons, List.flatMap_cons]
    exact (hf x List.mem_cons_self part hpart).append
      (ih hmore fun y hy => hf y (List.mem_cons_of_mem x hy))

def fieldsOf? : Value → Option (List (String × Value))
  | .table _ fields => some fields
  | _ => none

def members : Value → List (List (String × Value))
  | .list _ items => items.filterMap fieldsOf?
  | _ => []

def entryOf (f : String × Value) : Statement := .entry ⟨[], f.1⟩ f.2

def sectionOf (name : String) (fields : List (String × Value)) : List Statement :=
  .element ⟨[], name⟩ :: fields.map entryOf

/-- The statements of a written table: its entries, and after these its lists of tables. -/
def statementsOf (fields : List (String × Value)) : List Statement :=
  (fields.filter fun f => !isSectioned f.2).map entryOf ++
    fields.flatMap fun f => (members f.2).flatMap (sectionOf f.1)

theorem adds_writeFields? (hbare : ∀ f ∈ fields, IsBareName f.1)
    (h : writeFields? fields = some cs) : Adds cs (fields.map entryOf) := by
  obtain ⟨parts, hparts, hcs⟩ := Option.bind_eq_some_iff.mp h
  cases hcs
  rw [List.map_eq_flatMap]
  exact adds_flatten hparts fun f hf cs hwrite => adds_writeField? (hbare f hf) hwrite

theorem adds_writeSection? (hname : IsBareName name)
    (hbare : ∀ fields, fieldsOf? v = some fields → ∀ f ∈ fields, IsBareName f.1)
    (h : writeSection? name v = some cs) :
    Adds cs ((fieldsOf? v).toList.flatMap (sectionOf name)) := by
  cases v with
  | table form fields =>
    obtain ⟨lines, hlines, hcs⟩ := Option.bind_eq_some_iff.mp h
    cases hcs
    have hall := (adds_lineEnd.append (adds_header hname)).append
      (adds_writeFields? (hbare fields rfl) hlines)
    simpa [fieldsOf?, sectionOf] using hall
  | _ => exact absurd h (by simp [writeSection?])

theorem adds_writeSections? (hname : IsBareName name)
    (hbare : ∀ fields ∈ members v, ∀ f ∈ fields, IsBareName f.1)
    (h : writeSections? name v = some cs) :
    Adds cs ((members v).flatMap (sectionOf name)) := by
  cases v with
  | list form items =>
    obtain ⟨parts, hparts, hcs⟩ := Option.bind_eq_some_iff.mp h
    cases hcs
    rw [members, List.filterMap_eq_flatMap_toList, List.flatMap_assoc]
    exact adds_flatten hparts fun item hitem cs hwrite => adds_writeSection? hname
      (fun fields hfields => hbare fields (List.mem_filterMap.mpr ⟨item, hitem, hfields⟩)) hwrite
  | _ =>
    cases h
    exact adds_nil

theorem isSome_mapM {α β : Type} {f : α → Option β} {xs : List α} (h : ∀ x ∈ xs, (f x).isSome) :
    (xs.mapM f).isSome := by
  induction xs with
  | nil => rfl
  | cons x xs ih =>
    obtain ⟨y, hy⟩ := Option.isSome_iff_exists.mp (h x List.mem_cons_self)
    obtain ⟨ys, hys⟩ :=
      Option.isSome_iff_exists.mp (ih fun x' hx' => h x' (List.mem_cons_of_mem x hx'))
    rw [List.mapM_cons, hy, hys]
    rfl

theorem isSome_writeFields? (h : ∀ f ∈ fields, (writeScalar? f.2).isSome) :
    (writeFields? fields).isSome := by
  have hlines : ∀ f ∈ fields, (writeField? f.1 f.2).isSome := by
    intro f hf
    obtain ⟨cs, hcs⟩ := Option.isSome_iff_exists.mp (h f hf)
    rw [writeField?, hcs]
    rfl
  obtain ⟨lines, hmap⟩ := Option.isSome_iff_exists.mp (isSome_mapM hlines)
  rw [writeFields?, hmap]
  rfl

/-- Fields have a written form if the scalars among them and in their lists of tables have one. -/
theorem isSome_write? (hscalars : ∀ f ∈ fields, !isSectioned f.2 → (writeScalar? f.2).isSome)
    (hlists : ∀ f ∈ fields, ∀ form items, f.2 = .list form items → ∀ v ∈ items,
      ∃ form inner, v = .table form inner ∧ ∀ g ∈ inner, (writeScalar? g.2).isSome) :
    (write? fields).isSome := by
  have hlines : (writeFields? (fields.filter fun f => !isSectioned f.2)).isSome :=
    isSome_writeFields? fun f hf =>
      hscalars f (List.mem_of_mem_filter hf) (List.mem_filter.mp hf).2
  have hsections : ∀ f ∈ fields, (writeSections? f.1 f.2).isSome := by
    intro f hf
    cases hv : f.2 with
    | list form items =>
      have hitems : ∀ v ∈ items, (writeSection? f.1 v).isSome := by
        intro v hmem
        obtain ⟨form, inner, rfl, hinner⟩ := hlists f hf _ _ hv v hmem
        obtain ⟨cs, hcs⟩ := Option.isSome_iff_exists.mp (isSome_writeFields? hinner)
        rw [writeSection?, hcs]
        rfl
      obtain ⟨parts, hparts⟩ := Option.isSome_iff_exists.mp (isSome_mapM hitems)
      rw [writeSections?, hparts]
      rfl
    | _ => rfl
  obtain ⟨lines, hlines⟩ := Option.isSome_iff_exists.mp hlines
  obtain ⟨parts, hparts⟩ := Option.isSome_iff_exists.mp (isSome_mapM hsections)
  rw [write?]
  simp only [Option.bind_eq_bind, hlines, hparts, Option.bind_some]
  rfl

/-- A written table is read as its statements. -/
theorem spells_write? (h : write? fields = some cs) (hbare : ∀ f ∈ fields, IsBareName f.1)
    (hmembers : ∀ f ∈ fields, ∀ inner ∈ members f.2, ∀ g ∈ inner, IsBareName g.1) :
    Spells cs (statementsOf fields) := by
  obtain ⟨lines, hlines, h⟩ := Option.bind_eq_some_iff.mp h
  obtain ⟨parts, hparts, hcs⟩ := Option.bind_eq_some_iff.mp h
  cases hcs
  have hentries := adds_writeFields? (fun f hf => hbare f (List.mem_of_mem_filter hf)) hlines
  have hsections := adds_flatten hparts fun f hf cs hwrite =>
    adds_writeSections? (hbare f hf) (hmembers f hf) hwrite
  simpa [statementsOf] using (hentries.append hsections) [] [] spells_nil

theorem joinLineEnds_eq_self (h : ∀ c ∈ cs, isAllowed c) : joinLineEnds cs = cs := by
  induction cs with
  | nil => rfl
  | cons c cs ih =>
    have hreturn : c ≠ '\r' := ne_of_holds (h c List.mem_cons_self) rfl
    rw [joinLineEnds, ih fun e he => h e (List.mem_cons_of_mem c he)]
    exact fun more heq => absurd heq hreturn

theorem Spells.read_eq (h : Spells cs ss) :
    read (String.ofList cs) = (Table.ofStatements? ss).map fun t => .table .header t.fields := by
  have hmark : dropMark cs = cs := by
    unfold dropMark
    split
    · exact absurd rfl h.head_ne
    · rfl
  have hsource : source cs = some cs := by
    rw [source, hmark, joinLineEnds_eq_self h.allowed]
    exact if_pos (List.all_eq_true.mpr h.allowed)
  rw [read, String.toList_ofList, hsource]
  simp only [Option.bind_eq_bind, Option.bind_some, h.statements _ (Nat.lt_succ_self _),
    Option.map_eq_bind]
  rfl

end HeaderSync.Toml
