import HeaderSync.Proofs.Toml.Lines
import Mathlib.Data.List.Nodup

/-!
# Written tables are read back

The entries of a written table fill the root, and each header adds a table to the list of its name,
which the entries after it fill. So reading gives back the fields of a written table: first those
that are no lists, then the lists, each as a list of tables with a header. Only a list without
tables is lost.
-/

namespace HeaderSync.Toml

variable {name : String} {v : Value} {cs : List Char} {form : Form} {current : List String}
  {done fields inner : List (String × Value)} {tables more : List (List (String × Value))}
  {rest : List Statement} {t : Table}

structure IsRecord (fields : List (String × Value)) : Prop where
  nodup : (fields.map Prod.fst).Nodup
  bare : ∀ f ∈ fields, IsBareName f.1

def listOf (name : String) : List (List (String × Value)) → List (String × Value)
  | [] => []
  | tables => [(name, .list .header (tables.map (.table .header)))]

def readBack (fields : List (String × Value)) : List (String × Value) :=
  (fields.filter fun f => !isSectioned f.2) ++ fields.flatMap fun f => listOf f.1 (members f.2)

theorem notMem_of_nodup {f : String × Value} (h : ((done ++ f :: fields).map Prod.fst).Nodup) :
    f.1 ∉ done.map Prod.fst := by
  rw [List.map_append, List.map_cons] at h
  exact fun hf => (List.nodup_append.mp h).2.2 _ hf _ List.mem_cons_self rfl

theorem listOf_concat (name : String) (tables : List (List (String × Value)))
    (inner : List (String × Value)) : listOf name (tables ++ [inner]) =
      [(name, .list .header (tables.map (.table .header) ++ [.table .header inner]))] := by
  cases tables with
  | nil => rfl
  | cons first tables => simp [listOf]

theorem mem_listOf {f : String × Value} (h : f ∈ listOf name tables) : f.1 = name := by
  unfold listOf at h
  split at h
  · exact absurd h List.not_mem_nil
  · rw [List.mem_singleton.mp h]

theorem members_of_not_isSectioned (h : ¬isSectioned v) : members v = [] := by
  cases v with
  | list form items => exact absurd rfl h
  | _ => rfl

namespace Table

theorem get?_eq_none (h : name ∉ t.fields.map Prod.fst) : t.get? name = none := by
  rw [get?, List.lookup_eq_none_iff]
  intro f hf
  exact bne_iff_ne.mpr fun heq => h (List.mem_map.mpr ⟨f, hf, heq.symm⟩)

theorem get?_append (h : name ∉ done.map Prod.fst) :
    get? ⟨form, done ++ [(name, v)]⟩ name = some v := by
  have hnone := get?_eq_none (t := ⟨form, done⟩) h
  rw [get?] at hnone ⊢
  rw [List.lookup_append, hnone]
  simp

theorem put_new (h : name ∉ done.map Prod.fst) :
    put ⟨form, done⟩ name v = ⟨form, done ++ [(name, v)]⟩ := by
  rw [put, get?_eq_none h]
  rfl

theorem put_last {w : Value} (h : name ∉ done.map Prod.fst) :
    put ⟨form, done ++ [(name, v)]⟩ name w = ⟨form, done ++ [(name, w)]⟩ := by
  have hkeep : ∀ f ∈ done, (if f.1 = name then (f.1, w) else (f.1, f.2)) = f := fun f hf =>
    if_neg fun heq => h (List.mem_map.mpr ⟨f, hf, heq⟩)
  rw [put, get?_append h, Option.isSome_some, if_pos rfl, List.map_append,
    List.map_congr_left (g := id) hkeep, List.map_id]
  simp

/-- A new key goes to the end of a table that a header opened. -/
theorem set_new (h : name ∉ done.map Prod.fst) :
    set ⟨[], name⟩ v ⟨.header, done⟩ = some ⟨.header, done ++ [(name, v)]⟩ := by
  rw [set, modifyAt, get?_eq_none h, put_new h]
  rfl

theorem appendTable_listOf (h : name ∉ done.map Prod.fst) :
    appendTable ⟨[], name⟩ ⟨.header, done ++ listOf name tables⟩ =
      some ⟨.header, done ++ listOf name (tables ++ [[]])⟩ := by
  rw [appendTable, modifyAt, listOf_concat]
  cases tables with
  | nil => rw [listOf, List.append_nil, get?_eq_none h, put_new h]; rfl
  | cons first tables =>
    rw [listOf, get?_append h]
    · simp [put_last h]
    · simp

/-- A key after a header goes to the last table of the list. -/
theorem modifyAt_listOf {key : String} (h : name ∉ done.map Prod.fst)
    (hkey : key ∉ inner.map Prod.fst) :
    modifyAt false (set ⟨[], key⟩ v) [name] ⟨.header, done ++ listOf name (tables ++ [inner])⟩ =
      some ⟨.header, done ++ listOf name (tables ++ [inner ++ [(key, v)]])⟩ := by
  rw [modifyAt, listOf_concat, listOf_concat, get?_append h]
  simp [modifyAt, set_new hkey, put_last h]

theorem run_entries (h : ((done ++ fields).map Prod.fst).Nodup) :
    run [] ⟨.header, done⟩ (fields.map entryOf ++ rest) =
      run [] ⟨.header, done ++ fields⟩ rest := by
  induction fields generalizing done with
  | nil => rw [List.append_nil]; rfl
  | cons f fields ih =>
    have hnew := notMem_of_nodup h
    have hsplit : done ++ f :: fields = (done ++ [f]) ++ fields := by simp
    rw [hsplit] at h ⊢
    rw [List.map_cons, List.cons_append, entryOf, run, modifyAt, set_new hnew]
    exact ih h

/-- The entries after a header fill the last table of the list. -/
theorem run_section_entries (h : name ∉ done.map Prod.fst)
    (hinner : ((inner ++ fields).map Prod.fst).Nodup) :
    run [name] ⟨.header, done ++ listOf name (tables ++ [inner])⟩ (fields.map entryOf ++ rest) =
      run [name] ⟨.header, done ++ listOf name (tables ++ [inner ++ fields])⟩ rest := by
  induction fields generalizing inner with
  | nil => rw [List.append_nil]; rfl
  | cons f fields ih =>
    have hnew := notMem_of_nodup hinner
    have hsplit : inner ++ f :: fields = (inner ++ [f]) ++ fields := by simp
    rw [hsplit] at hinner ⊢
    rw [List.map_cons, List.cons_append, entryOf, run, modifyAt_listOf h hnew]
    exact ih hinner

theorem run_sections (tables : List (List (String × Value))) (h : name ∉ done.map Prod.fst)
    (hmore : ∀ inner ∈ more, (inner.map Prod.fst).Nodup) :
    ∃ last, run current ⟨.header, done ++ listOf name tables⟩
        (more.flatMap (sectionOf name) ++ rest) =
      run last ⟨.header, done ++ listOf name (tables ++ more)⟩ rest := by
  induction more generalizing current tables with
  | nil => exact ⟨current, by rw [List.append_nil]; rfl⟩
  | cons inner more ih =>
    obtain ⟨last, hlast⟩ := ih (tables ++ [inner])
      fun other hother => hmore other (List.mem_cons_of_mem inner hother)
    refine ⟨last, ?_⟩
    rw [List.append_cons tables inner more, ← hlast, List.flatMap_cons, List.append_assoc,
      sectionOf, List.cons_append, run, appendTable_listOf h]
    exact run_section_entries h (hmore inner List.mem_cons_self)

theorem run_lists (hnodup : (fields.map Prod.fst).Nodup)
    (hnew : ∀ f ∈ fields, isSectioned f.2 → f.1 ∉ done.map Prod.fst)
    (hmembers : ∀ f ∈ fields, ∀ inner ∈ members f.2, (inner.map Prod.fst).Nodup) :
    run current ⟨.header, done⟩ (fields.flatMap fun f => (members f.2).flatMap (sectionOf f.1)) =
      some ⟨.header, done ++ fields.flatMap fun f => listOf f.1 (members f.2)⟩ := by
  induction fields generalizing current done with
  | nil => rw [List.flatMap_nil, List.flatMap_nil, List.append_nil]; rfl
  | cons f fields ih =>
    rw [List.map_cons, List.nodup_cons] at hnodup
    have hfields : ∀ g ∈ fields, isSectioned g.2 → g.1 ∉ done.map Prod.fst := fun g hg =>
      hnew g (List.mem_cons_of_mem f hg)
    have hmore : ∀ g ∈ fields, ∀ inner ∈ members g.2, (inner.map Prod.fst).Nodup := fun g hg =>
      hmembers g (List.mem_cons_of_mem f hg)
    rw [List.flatMap_cons, List.flatMap_cons]
    by_cases hf : isSectioned f.2
    · have hadded : ∀ g ∈ fields, isSectioned g.2 →
          g.1 ∉ (done ++ listOf f.1 (members f.2)).map Prod.fst := by
        intro g hg hlist
        rw [List.map_append, List.mem_append, not_or]
        refine ⟨hfields g hg hlist, fun hin => ?_⟩
        obtain ⟨e, he, heq⟩ := List.mem_map.mp hin
        rw [mem_listOf he] at heq
        exact hnodup.1 (heq ▸ List.mem_map_of_mem hg)
      obtain ⟨last, hlast⟩ := run_sections [] (hnew f List.mem_cons_self hf)
        (hmembers f List.mem_cons_self)
      rw [listOf, List.append_nil, List.nil_append] at hlast
      rw [hlast, ih hnodup.2 hadded hmore, List.append_assoc]
    · rw [members_of_not_isSectioned hf]
      exact ih hnodup.2 hfields hmore

end Table

/-- Writing the fields of a table and reading the text gives them back. -/
theorem read_write? (h : write? fields = some cs) (hfields : IsRecord fields)
    (hmembers : ∀ f ∈ fields, ∀ inner ∈ members f.2, IsRecord inner) :
    read (String.ofList cs) = some (.table .header (readBack fields)) := by
  have hspells := spells_write? h hfields.bare fun f hf inner hinner =>
    (hmembers f hf inner hinner).bare
  have hscalars : (([] ++ fields.filter fun f => !isSectioned f.2 : List (String × Value)).map
      Prod.fst).Nodup :=
    hfields.nodup.sublist (List.filter_sublist.map Prod.fst)
  have hlists : ∀ f ∈ fields, isSectioned f.2 →
      f.1 ∉ (fields.filter fun g => !isSectioned g.2).map Prod.fst := by
    intro f hf hlist hin
    obtain ⟨g, hg, heq⟩ := List.mem_map.mp hin
    obtain ⟨hg, hscalar⟩ := List.mem_filter.mp hg
    rw [List.inj_on_of_nodup_map hfields.nodup hg hf heq, hlist] at hscalar
    exact absurd hscalar (by decide)
  rw [hspells.read_eq, Table.ofStatements?, statementsOf, Table.run_entries hscalars,
    List.nil_append, Table.run_lists hfields.nodup hlists fun f hf inner hinner =>
      (hmembers f hf inner hinner).nodup]
  rfl

end HeaderSync.Toml
