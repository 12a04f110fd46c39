import HeaderSync.Params.File
import HeaderSync.Params.Preset
import HeaderSync.Proofs.Params.Requirements
import HeaderSync.Proofs.Toml.Tables
import HeaderSync.Proofs.UInt256.Numeral

/-!
# Saved parameters are loaded unchanged

The document of a set of parameters describes them in both dialects, whether its list of eras is
inline or a sequence of headed tables. A parameter file holds every field of valid parameters with
heights of at most 63 bits, so loading it gives them back.
-/

namespace HeaderSync
open Text

variable {d : Dialect} {form : Form} {c : Char}

namespace Value

theorem toIntegerIn?_integer {low high n : Int} (hlow : low ≤ n) (hhigh : n < high) :
    toIntegerIn? low high (.integer n) = some n := by
  simp [toIntegerIn?, toInteger?, Option.filter, hlow, hhigh]

theorem toUInt32?_toNat (n : UInt32) : toUInt32? (.integer n.toNat) = some n := by
  have hlt := n.toNat_lt
  rw [toUInt32?, toIntegerIn?_integer (by omega) (by omega)]
  simp

theorem toUInt64?_toNat (n : UInt64) : toUInt64? (.integer n.toNat) = some n := by
  have hlt := n.toNat_lt
  rw [toUInt64?, toIntegerIn?_integer (by omega) (by omega)]
  simp

theorem toInt64?_toInt (n : Int64) : toInt64? (.integer n.toInt) = some n := by
  have hle := n.le_toInt
  have hlt := n.toInt_lt
  rw [toInt64?, toIntegerIn?_integer (by omega) (by omega)]
  simp

theorem toUInt256?_toHex (n : UInt256) : toUInt256? (.text n.toHex) = some n := by
  rw [toUInt256?, toText?, UInt256.toHex]
  simp [UInt256.ofHexDigits?_toHexDigits]

theorem toList?_map {α : Type} {f : Value → Option α} {g : α → Value} (h : ∀ x, f (g x) = some x)
    (form : Form) (xs : List α) : toList? f (.list form (xs.map g)) = some xs := by
  rw [toList?]
  induction xs with
  | nil => rfl
  | cons x xs ih => rw [List.map_cons, List.mapM_cons, h, ih]; rfl

end Value

theorem bind_eq_some_of_eq {α β : Type} {x : Option α} {f : α → Option β} {a : α} {b : β}
    (hx : x = some a) (hf : f a = some b) : x >>= f = some b := by
  rw [hx]
  exact hf

theorem Value.required_eq {α : Type} {fields : String → Option Value} {name : String} {v : Value}
    {f : Value → Option α} {a : α} (h : fields name = some v) (hf : f v = some a) :
    required fields name f = some a :=
  bind_eq_some_of_eq h hf

theorem Era.ofValue?_toFields (form : Form) (e : Era) :
    ofValue? d (.table form e.toFields) = some e := by
  -- Field by field: to reduce the whole record is to count up to the bounds of its integers.
  refine bind_eq_some_of_eq rfl ?_
  refine bind_eq_some_of_eq (Value.required_eq rfl (Value.toUInt64?_toNat e.aboveHeight)) ?_
  refine bind_eq_some_of_eq (Value.required_eq rfl (Value.toInt64?_toInt e.minDivisor)) ?_
  refine bind_eq_some_of_eq (Value.required_eq rfl (Value.toInt64?_toInt e.maxMultiplier)) ?_
  rfl

namespace Params

structure SignedHeights (p : Params) : Prop where
  switchHeight : p.switchHeight.toNat ≤ 0x7fffffffffffffff
  allowMinDifficultyAfter : ∀ h ∈ p.allowMinDifficultyAfter, h.toNat ≤ 0x7fffffffffffffff
  eras : ∀ e ∈ p.eras, e.aboveHeight.toNat ≤ 0x7fffffffffffffff

def scalars (p : Params) : List (String × Value) := p.toFields.filter fun f => !Toml.isSectioned f.2

theorem toFields_eq (p : Params) : p.toFields = p.scalars ++
    [("legacy_eras", .list .inline (p.eras.map fun e => .table .inline e.toFields))] := by
  rw [scalars, toFields]
  cases p.allowMinDifficultyAfter <;> simp [Toml.isSectioned]

theorem lookup_after (p : Params) (eras : Value) :
    (p.scalars ++ [("legacy_eras", eras)]).lookup "pow_allow_min_difficulty_blocks_after_height" =
      p.allowMinDifficultyAfter.map fun height => .integer height.toNat := by
  rw [scalars, toFields]
  cases p.allowMinDifficultyAfter <;> rfl

theorem lookup_noRetargeting (p : Params) (eras : Value) :
    (p.scalars ++ [("legacy_eras", eras)]).lookup "pow_no_retargeting" =
      some (.boolean p.noRetargeting) := by
  rw [scalars, toFields]
  cases p.allowMinDifficultyAfter <;> rfl

theorem lookup_eras (p : Params) (eras : Value) :
    (p.scalars ++ [("legacy_eras", eras)]).lookup "legacy_eras" = some eras := by
  rw [scalars, toFields]
  cases p.allowMinDifficultyAfter <;> rfl

/-- The fields describe the parameters in either dialect, in whatever form the eras are. -/
theorem ofValue?_eq (p : Params) {eras : Value}
    (heras : Value.toList? (Era.ofValue? d) eras = some p.eras) :
    ofValue? d (.table form (p.scalars ++ [("legacy_eras", eras)])) = some p := by
  have hnetwork (n : Network) :
      (do Network.ofName? (← (Value.text n.name).alternative? d)) = some n :=
    n.ofName?_name
  have hafter : Value.optional (fun name => (p.scalars ++ [("legacy_eras", eras)]).lookup name)
      "pow_allow_min_difficulty_blocks_after_height" Value.toUInt64? =
        some p.allowMinDifficultyAfter := by
    rw [Value.optional, lookup_after]
    cases p.allowMinDifficultyAfter with
    | none => rfl
    | some height => exact congrArg (Option.map some) (Value.toUInt64?_toNat height)
  have hlist : Value.withDefault (fun name => (p.scalars ++ [("legacy_eras", eras)]).lookup name)
      "legacy_eras" Era.defaults (Value.toList? (Era.ofValue? d)) = some p.eras := by
    rw [Value.withDefault, lookup_eras]
    exact heras
  refine bind_eq_some_of_eq rfl ?_
  refine bind_eq_some_of_eq (Value.required_eq rfl (hnetwork p.network)) ?_
  refine bind_eq_some_of_eq (Value.required_eq rfl (Value.toUInt256?_toHex p.powLimit)) ?_
  refine bind_eq_some_of_eq (Value.required_eq rfl (Value.toUInt256?_toHex p.minimumChainWork)) ?_
  refine bind_eq_some_of_eq (Value.required_eq rfl (Value.toUInt32?_toNat p.averagingWindow)) ?_
  refine bind_eq_some_of_eq (Value.required_eq rfl (Value.toInt64?_toInt p.targetSpacing)) ?_
  refine bind_eq_some_of_eq (Value.required_eq rfl (Value.toInt64?_toInt p.legacySpacing)) ?_
  refine bind_eq_some_of_eq (Value.required_eq rfl (Value.toInt64?_toInt p.targetTimespan)) ?_
  refine bind_eq_some_of_eq (Value.required_eq rfl (Value.toInt64?_toInt p.maxAdjustUp)) ?_
  refine bind_eq_some_of_eq (Value.required_eq rfl (Value.toInt64?_toInt p.maxAdjustDown)) ?_
  refine bind_eq_some_of_eq (Value.required_eq rfl (Value.toUInt64?_toNat p.switchHeight)) ?_
  refine bind_eq_some_of_eq (Value.required_eq (v := .boolean p.allowMinDifficulty) rfl rfl) ?_
  refine bind_eq_some_of_eq hafter ?_
  refine bind_eq_some_of_eq (Value.required_eq (lookup_noRetargeting p eras) rfl) ?_
  refine bind_eq_some_of_eq hlist ?_
  rfl

/-- Every field is written but the optional height, which is left out where there is none. -/
theorem names_toFields (p : Params) : p.toFields.map Prod.fst = fieldNames.filter fun name =>
    name ≠ "pow_allow_min_difficulty_blocks_after_height" || p.allowMinDifficultyAfter.isSome := by
  rw [toFields]
  cases p.allowMinDifficultyAfter <;> rfl

theorem isRecord_toFields (p : Params) : Toml.IsRecord p.toFields where
  nodup := by
    have hnodup : fieldNames.Nodup := by decide
    rw [names_toFields]
    exact hnodup.filter _
  bare f hf := by
    have hall : ∀ name ∈ fieldNames, Toml.IsBareName name := by decide
    have hname := List.mem_map_of_mem (f := Prod.fst) hf
    rw [names_toFields] at hname
    exact hall _ (List.mem_of_mem_filter hname)

theorem isRecord_era (e : Era) : Toml.IsRecord e.toFields where
  nodup := by
    have hnodup : Era.fieldNames.Nodup := by decide
    exact hnodup
  bare f hf := by
    have hall : ∀ name ∈ Era.fieldNames, Toml.IsBareName name := by decide
    exact hall _ (List.mem_map_of_mem (f := Prod.fst) hf)

theorem members_eras (p : Params) :
    Toml.members (.list .inline (p.eras.map fun e => .table .inline e.toFields)) =
      p.eras.map Era.toFields := by
  rw [Toml.members, List.filterMap_map]
  exact congrFun (List.filterMap_eq_map (f := Era.toFields)) p.eras

theorem readBack_toFields (p : Params) (h : p.eras ≠ []) : Toml.readBack p.toFields = p.scalars ++
    [("legacy_eras", .list .header (p.eras.map fun e => .table .header e.toFields))] := by
  have hscalars : p.scalars.flatMap (fun f => Toml.listOf f.1 (Toml.members f.2)) = [] := by
    rw [List.flatMap_eq_nil_iff]
    intro f hf
    have hscalar := (List.mem_filter.mp hf).2
    rw [Toml.members_of_not_isSectioned fun hlist => by simp [hlist] at hscalar, Toml.listOf]
  have heras : Toml.listOf "legacy_eras" (p.eras.map Era.toFields) =
      [("legacy_eras", .list .header (p.eras.map fun e => .table .header e.toFields))] := by
    obtain ⟨e, eras, heq⟩ := List.exists_cons_of_ne_nil h
    rw [heq]
    simp [Toml.listOf]
  rw [Toml.readBack, ← scalars, toFields_eq, List.flatMap_append, hscalars, List.nil_append,
    List.flatMap_singleton, members_eras, heras]

theorem isVerbatim_of_hexValue? {n : Nat} (h : hexValue? c = some n) : Toml.isVerbatim c := by
  have hbounds := (UInt256.hexValue?_bounds h).2
  have hquote : c ≠ '\x22' := by
    rintro rfl
    cases h
  have hescape : c ≠ '\\' := by
    rintro rfl
    cases h
  simp only [Toml.isVerbatim, Bool.and_eq_true, decide_eq_true_eq]
  exact ⟨⟨⟨by omega, by omega⟩, hquote⟩, hescape⟩

theorem isSome_writeHex (n : UInt256) : (Toml.writeScalar? (.text n.toHex)).isSome := by
  obtain ⟨ds, hds, -⟩ := UInt256.exists_value_hexDigits 64 n.toNat
  have hall : n.toHex.toList.all Toml.isVerbatim := by
    rw [UInt256.toHex, String.toList_ofList, UInt256.toHexDigits, List.all_eq_true]
    intro c hc
    rcases List.mem_cons.mp hc with rfl | hc
    · rfl
    rcases List.mem_cons.mp hc with rfl | hc
    · rfl
    obtain ⟨d, hd⟩ := UInt256.exists_hexValue? hds hc
    exact isVerbatim_of_hexValue? hd
  rw [Toml.writeScalar?, if_pos hall]
  rfl

theorem isSome_writeInteger {n : Int} (hlow : -0x8000000000000000 ≤ n)
    (hhigh : n < 0x8000000000000000) : (Toml.writeScalar? (.integer n)).isSome := by
  rw [Toml.writeScalar?, if_pos ⟨hlow, hhigh⟩]
  rfl

theorem isSome_writeInt64 (n : Int64) : (Toml.writeScalar? (.integer n.toInt)).isSome :=
  isSome_writeInteger n.le_toInt n.toInt_lt

theorem isSome_writeHeight {n : Nat} (h : n ≤ 0x7fffffffffffffff) :
    (Toml.writeScalar? (.integer n)).isSome :=
  isSome_writeInteger (by omega) (by omega)

theorem isSome_writeScalar? {p : Params} (hp : p.SignedHeights) {f : String × Value}
    (hf : f ∈ p.toFields) (hscalar : !Toml.isSectioned f.2) : (Toml.writeScalar? f.2).isSome := by
  have hnetwork : (Toml.writeScalar? (.text p.network.name)).isSome := by
    cases p.network <;> decide
  have hwindow := p.averagingWindow.toNat_lt
  simp only [toFields, List.mem_append, List.mem_cons, List.not_mem_nil, or_false, List.mem_map,
    Option.mem_toList] at hf
  rcases hf with ((rfl | rfl | rfl | rfl | rfl | rfl | rfl | rfl | rfl | rfl | rfl) |
    ⟨height, hheight, rfl⟩) | (rfl | rfl)
  · exact hnetwork
  · exact isSome_writeHex p.powLimit
  · exact isSome_writeHex p.minimumChainWork
  · exact isSome_writeHeight (by omega)
  · exact isSome_writeInt64 p.targetSpacing
  · exact isSome_writeInt64 p.legacySpacing
  · exact isSome_writeInt64 p.targetTimespan
  · exact isSome_writeInt64 p.maxAdjustUp
  · exact isSome_writeInt64 p.maxAdjustDown
  · exact isSome_writeHeight hp.switchHeight
  · rfl
  · exact isSome_writeHeight (hp.allowMinDifficultyAfter height hheight)
  · rfl
  · exact absurd hscalar Bool.false_ne_true

theorem isSome_writeEra {e : Era} (he : e.aboveHeight.toNat ≤ 0x7fffffffffffffff) :
    ∀ f ∈ e.toFields, (Toml.writeScalar? f.2).isSome := by
  simp only [Era.toFields, List.forall_mem_cons, List.not_mem_nil, false_implies, implies_true,
    and_true]
  exact ⟨isSome_writeHeight he, isSome_writeInt64 e.minDivisor, isSome_writeInt64 e.maxMultiplier⟩

theorem eq_eras_of_isSectioned {p : Params} {f : String × Value} (hf : f ∈ p.toFields)
    (h : Toml.isSectioned f.2) :
    f = ("legacy_eras", .list .inline (p.eras.map fun e => .table .inline e.toFields)) := by
  rw [toFields_eq, List.mem_append, List.mem_singleton] at hf
  refine hf.resolve_left fun hscalar => ?_
  simp [scalars, h] at hscalar

theorem isSome_writeFile {p : Params} (hp : p.SignedHeights) :
    (Toml.write? p.toFields).isSome := by
  apply Toml.isSome_write? fun f hf => isSome_writeScalar? hp hf
  intro f hf form items hlist v hv
  obtain rfl := eq_eras_of_isSectioned hf (by rw [hlist]; rfl)
  cases hlist
  obtain ⟨e, he, rfl⟩ := List.mem_map.mp hv
  exact ⟨.inline, e.toFields, rfl, isSome_writeEra (hp.eras e he)⟩

theorem isRecord_members {p : Params} {f : String × Value} {inner : List (String × Value)}
    (hf : f ∈ p.toFields) (hinner : inner ∈ Toml.members f.2) : Toml.IsRecord inner := by
  by_cases hlist : Toml.isSectioned f.2
  · rw [eq_eras_of_isSectioned hf hlist, members_eras] at hinner
    obtain ⟨e, -, rfl⟩ := List.mem_map.mp hinner
    exact isRecord_era e
  · rw [Toml.members_of_not_isSectioned hlist] at hinner
    exact absurd hinner List.not_mem_nil

/-- The text of a parameter file describes the parameters that were saved. -/
theorem ofText_write? {p : Params} (hp : p.Valid) {cs : List Char}
    (h : Toml.write? p.toFields = some cs) : ofText (String.ofList cs) = .ok p := by
  have hread := Toml.read_write? h p.isRecord_toFields fun f hf inner => isRecord_members hf
  have heras := Value.toList?_map (Era.ofValue?_toFields (d := .toml) .header) .header p.eras
  have hcheck : p.check = .ok () := hp
  rw [readBack_toFields p (valid_iff.mp hp).eras_ne_nil] at hread
  simp only [ofText, hread, Option.bind_some, ofValue?_eq p heras, hcheck]

theorem load_toUTF8 (text : String) : load text.toUTF8 = ofText text := by
  have hread : String.fromUTF8? text.toUTF8 = some text := dif_pos text.isValidUTF8
  rw [load, hread]

/-- The document of a set of parameters describes them. Valid parameters with heights of at most 63
bits can be saved, and loading the file gives them back. A 256-bit number is read back from its
hexadecimal text. -/
theorem saved_is_loaded (p : Params) :
    ofValue? .json p.toValue = some p ∧
      (p.Valid → p.SignedHeights →
        ∃ text, p.save = .ok text ∧ load text.toUTF8 = .ok p) ∧
      ∀ v : UInt256, UInt256.ofHex v.toHex = .ok v := by
  refine ⟨?_, ?_, ?_⟩
  · rw [toValue, toFields_eq]
    exact ofValue?_eq p (Value.toList?_map (Era.ofValue?_toFields .inline) .inline p.eras)
  · intro hp hheights
    obtain ⟨cs, hcs⟩ := Option.isSome_iff_exists.mp (isSome_writeFile hheights)
    have hcheck : p.check = .ok () := hp
    refine ⟨String.ofList cs, ?_, ?_⟩
    · simp only [save, hcheck, hcs]
    · rw [load_toUTF8, ofText_write? hp hcs]
  · intro v
    rw [UInt256.ofHex, UInt256.toHex, String.toList_ofList, UInt256.ofHexDigits?_toHexDigits]

/-- Eras up to the greatest height and an optional height are kept, next to a different network. -/
theorem saved_is_loaded_last_height :
    let p : Params := { testnet with
      allowMinDifficultyAfter := some 0
      eras := [⟨0x7fffffffffffffff, 1, 2⟩, ⟨0, 16, 4⟩] }
    p.Valid ∧ p.SignedHeights ∧ ∃ text, p.save = .ok text ∧ load text.toUTF8 = .ok p := by
  intro p
  have hp : p.Valid := by decide +kernel
  have hheights : p.SignedHeights := by
    refine ⟨by decide, ?_, by decide⟩
    rintro _ ⟨⟩
    decide
  exact ⟨hp, hheights, (saved_is_loaded p).2.1 hp hheights⟩

end Params
end HeaderSync
