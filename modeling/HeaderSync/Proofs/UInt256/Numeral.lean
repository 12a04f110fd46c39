import HeaderSync.UInt256.Hex
import Mathlib.Data.Nat.Digits.Defs
import Mathlib.Tactic.Ring

/-!
# Which texts are read as 256-bit numbers

Reading accepts every hexadecimal numeral of up to 64 digits, with one mark or none in front and
blanks around it, and gives the number that it denotes. It accepts more than these: marks may be
repeated, and a plus sign may stand for the zero at the front of a pair of digits, pairs being
counted from the right. Nothing else is accepted, and what is written is read back.
-/

namespace HeaderSync.UInt256
open Text

variable {cs digits : List Char} {c letter : Char} {ds : List Nat} {acc n d : Nat}

theorem hexValue?_bounds (h : hexValue? c = some d) : d < 16 ∧ 48 ≤ c.toNat ∧ c.toNat ≤ 102 := by
  unfold hexValue? at h
  simp only [Char.le_def, UInt32.le_iff_toNat_le] at h
  split_ifs at h with hdigit hlower hupper
  · cases h
    have hle : 48 ≤ c.toNat ∧ c.toNat ≤ 57 := hdigit
    change c.toNat - 48 < 16 ∧ _
    omega
  · cases h
    have hle : 97 ≤ c.toNat ∧ c.toNat ≤ 102 := hlower
    change c.toNat - 97 + 10 < 16 ∧ _
    omega
  · cases h
    have hle : 65 ≤ c.toNat ∧ c.toNat ≤ 70 := hupper
    change c.toNat - 65 + 10 < 16 ∧ _
    omega

theorem hexValue?_hexDigit (h : d < 16) : hexValue? (hexDigit d) = some d := by
  have hall : ∀ d < 16, hexValue? (hexDigit d) = some d := by decide
  exact hall d h

/-- Whether a text is a numeral in base sixteen: 1 to 64 digits, most significant first. -/
structure IsNumeral (cs : List Char) (n : Nat) : Prop where
  ne_nil : cs ≠ []
  length_le : cs.length ≤ 64
  value : ∃ ds : List Nat, cs.map hexValue? = ds.map some ∧ n = Nat.ofDigits 16 ds.reverse

/-- The digit that a plus sign is read as, and every other character itself. -/
def signAsZero (c : Char) : Char := if c = '+' then '0' else c

/-- Whether each plus sign stands at the front of a pair, that is, before an odd number of
characters. -/
def SignsLeadPairs (cs : List Char) : Prop := ∀ after, '+' :: after <:+ cs → after.length % 2 = 1

def marks (letter : Char) : (count : Nat) → List Char
  | 0 => []
  | count + 1 => '0' :: letter :: marks letter count

def horner (acc : Nat) (ds : List Nat) : Nat := ds.foldl (fun acc d => 16 * acc + d) acc

theorem horner_zero (ds : List Nat) : horner 0 ds = Nat.ofDigits 16 ds.reverse := by
  rw [Nat.ofDigits_eq_foldr, List.foldr_reverse, horner]
  simp only [Nat.add_comm, Nat.cast_id]

theorem horner_replicate (count : Nat) (ds : List Nat) :
    horner 0 (List.replicate count 0 ++ ds) = horner 0 ds := by
  induction count with
  | zero => rfl
  | succ count ih => exact ih

theorem signsLeadPairs_nil : SignsLeadPairs [] := by
  intro after h
  simp at h

theorem signsLeadPairs_cons :
    SignsLeadPairs (c :: cs) ↔ (c = '+' → cs.length % 2 = 1) ∧ SignsLeadPairs cs := by
  unfold SignsLeadPairs
  simp only [List.suffix_cons_iff, List.cons.injEq]
  constructor
  · intro h
    exact ⟨fun hc => h cs (.inl ⟨hc.symm, rfl⟩), fun after hsuffix => h after (.inr hsuffix)⟩
  · rintro ⟨hc, hcs⟩ after (⟨rfl, rfl⟩ | hsuffix)
    · exact hc rfl
    · exact hcs after hsuffix

theorem signsLeadPairs_of_notMem (h : '+' ∉ cs) : SignsLeadPairs cs := fun _ hsuffix =>
  absurd (hsuffix.subset List.mem_cons_self) h

theorem map_signAsZero (h : '+' ∉ cs) : cs.map signAsZero = cs := by
  have hid : ∀ c ∈ cs, signAsZero c = c := fun c hc => if_neg fun (heq : c = '+') => h (heq ▸ hc)
  exact (List.map_congr_left hid).trans (List.map_id' cs)

theorem signsLeadPairs_padded : SignsLeadPairs (padded cs) ↔ SignsLeadPairs cs := by
  unfold padded
  induction 64 - cs.length with
  | zero => rfl
  | succ count ih =>
    rw [List.replicate_succ, List.cons_append, signsLeadPairs_cons, ih]
    exact and_iff_right fun h => absurd h (by decide)

theorem map_cons_eq_map_some :
    (c :: cs).map hexValue? = ds.map some ↔
      ∃ e es, hexValue? c = some e ∧ cs.map hexValue? = es.map some ∧ ds = e :: es := by
  rw [List.map_cons, eq_comm, List.map_eq_cons_iff]
  constructor
  · rintro ⟨e, es, rfl, he, hes⟩
    exact ⟨e, es, he.symm, hes.symm, rfl⟩
  · rintro ⟨e, es, he, hes, rfl⟩
    exact ⟨e, es, rfl, he.symm, hes.symm⟩

theorem map_padded_eq_map_some : ((padded cs).map signAsZero).map hexValue? = ds.map some ↔
    ∃ es, (cs.map signAsZero).map hexValue? = es.map some ∧
      ds = List.replicate (64 - cs.length) 0 ++ es := by
  have hzero : hexValue? (signAsZero '0') = some 0 := rfl
  rw [padded, List.map_append, List.map_append, List.map_replicate, List.map_replicate, hzero,
    ← List.map_replicate, List.append_eq_map_iff]
  constructor
  · rintro ⟨zeros, es, rfl, hzeros, hes⟩
    rw [(List.map_inj_right fun _ _ => Option.some.inj).mp hzeros]
    exact ⟨es, hes.symm, rfl⟩
  · rintro ⟨es, hes, rfl⟩
    exact ⟨_, es, rfl, rfl, hes.symm⟩

/-- A numeral of up to 64 digits has at most 256 bits. -/
theorem IsNumeral.lt (h : IsNumeral cs n) : n < 1 <<< 256 := by
  obtain ⟨ds, hds, rfl⟩ := h.value
  have hlength : ds.reverse.length ≤ 64 := by
    have heq := congrArg List.length hds
    rw [List.length_map, List.length_map] at heq
    rw [List.length_reverse, ← heq]
    exact h.length_le
  calc Nat.ofDigits 16 ds.reverse < 16 ^ ds.reverse.length := by
        apply Nat.ofDigits_lt_base_pow_length (by decide)
        intro d hd
        have hmem : some d ∈ ds.map some := List.mem_map_of_mem (List.mem_reverse.mp hd)
        rw [← hds] at hmem
        obtain ⟨c, -, hc⟩ := List.mem_map.mp hmem
        exact (hexValue?_bounds hc).1
    _ ≤ 16 ^ 64 := Nat.pow_le_pow_right (by decide) hlength
    _ = 1 <<< 256 := by decide

theorem pairValue?_eq_some_iff {high low : Char} {byte : Nat} :
    pairValue? high low = some byte ↔ ∃ d e, hexValue? (signAsZero high) = some d ∧
      hexValue? low = some e ∧ byte = 16 * d + e := by
  unfold pairValue? signAsZero
  split_ifs with h
  · have hzero : hexValue? '0' = some 0 := rfl
    rw [hzero]
    constructor
    · intro hlow
      exact ⟨0, byte, rfl, hlow, by omega⟩
    · rintro ⟨d, e, hd, hlow, rfl⟩
      cases hd
      simpa using hlow
  · simp only [Option.bind_eq_bind, Option.bind_eq_some_iff, Option.pure_def, Option.some.injEq]
    constructor
    · rintro ⟨d, hd, e, he, rfl⟩
      exact ⟨d, e, hd, he, rfl⟩
    · rintro ⟨d, e, hd, he, rfl⟩
      exact ⟨d, hd, e, he, rfl⟩

/-- Reading in pairs is reading digit by digit, with a zero for each plus sign that leads a pair. -/
theorem pairsValue?_eq_some_iff (heven : cs.length % 2 = 0) : pairsValue? acc cs = some n ↔
    SignsLeadPairs cs ∧
      ∃ ds, (cs.map signAsZero).map hexValue? = ds.map some ∧ n = horner acc ds := by
  fun_induction pairsValue? acc cs with
  | case1 acc =>
    constructor
    · rintro ⟨⟩
      exact ⟨signsLeadPairs_nil, [], rfl, rfl⟩
    · rintro ⟨-, ds, hds, rfl⟩
      obtain rfl : ds = [] := List.map_eq_nil_iff.mp hds.symm
      rfl
  | case2 acc c => simp at heven
  | case3 acc high low rest ih =>
    have hrest : rest.length % 2 = 0 := by
      simp only [List.length_cons] at heven
      omega
    have hlow : SignsLeadPairs (high :: low :: rest) ↔ low ≠ '+' ∧ SignsLeadPairs rest := by
      rw [signsLeadPairs_cons, signsLeadPairs_cons, List.length_cons, hrest]
      grind
    have hshift (d e : Nat) : 256 * acc + (16 * d + e) = 16 * (16 * acc + d) + e := by ring
    simp only [Option.bind_eq_bind, Option.bind_eq_some_iff, pairValue?_eq_some_iff, hlow,
      List.map_cons (f := signAsZero), map_cons_eq_map_some]
    constructor
    · rintro ⟨byte, ⟨d, e, hd, he, rfl⟩, hvalue⟩
      obtain ⟨hsigns, ds, hds, rfl⟩ := (ih _ hrest).mp hvalue
      have hne : low ≠ '+' := by
        rintro rfl
        cases he
      have hself : signAsZero low = low := if_neg hne
      refine ⟨⟨hne, hsigns⟩, d :: e :: ds, ⟨d, e :: ds, hd, ⟨e, ds, ?_, hds, rfl⟩, rfl⟩, ?_⟩
      · rw [hself, he]
      · rw [hshift]
        rfl
    · rintro ⟨⟨hne, hsigns⟩, ds, ⟨d, es, hd, ⟨e, ds, he, hds, rfl⟩, rfl⟩, rfl⟩
      have hself : signAsZero low = low := if_neg hne
      rw [hself] at he
      refine ⟨16 * d + e, ⟨d, e, hd, he, rfl⟩, (ih _ hrest).mpr ⟨hsigns, ds, hds, ?_⟩⟩
      rw [hshift]
      rfl

theorem pairsValue?_padded (h : cs.length ≤ 64) : pairsValue? 0 (padded cs) = some n ↔
    SignsLeadPairs cs ∧ ∃ ds : List Nat, (cs.map signAsZero).map hexValue? = ds.map some ∧
      n = Nat.ofDigits 16 ds.reverse := by
  have heven : (padded cs).length % 2 = 0 := by
    rw [padded, List.length_append, List.length_replicate, Nat.sub_add_cancel h]
  rw [pairsValue?_eq_some_iff heven, signsLeadPairs_padded]
  simp only [map_padded_eq_map_some]
  refine and_congr_right fun _ => ?_
  constructor
  · rintro ⟨_, ⟨es, hes, rfl⟩, rfl⟩
    exact ⟨es, hes, by rw [horner_replicate, horner_zero]⟩
  · rintro ⟨es, hes, rfl⟩
    exact ⟨_, ⟨es, hes, rfl⟩, by rw [horner_replicate, horner_zero]⟩

theorem dropMarks_marks {count : Nat} (h : ¬['0', letter] <+: cs) :
    dropMarks letter (marks letter count ++ cs) = cs := by
  induction count with
  | zero =>
    rw [marks, List.nil_append]
    unfold dropMarks
    split
    · next c rest =>
      rw [if_neg]
      rintro rfl
      exact h ⟨rest, rfl⟩
    · rfl
  | succ count ih => rw [marks, List.cons_append, List.cons_append, dropMarks, if_pos rfl, ih]

theorem exists_marks (letter : Char) (cs : List Char) :
    ∃ count, cs = marks letter count ++ dropMarks letter cs := by
  fun_induction dropMarks letter cs with
  | case1 rest ih =>
    obtain ⟨count, hcount⟩ := ih
    exact ⟨count + 1, congrArg _ (congrArg _ hcount)⟩
  | case2 c rest hc => exact ⟨0, rfl⟩
  | case3 cs _ => exact ⟨0, rfl⟩

theorem exists_hexValue? (h : cs.map hexValue? = ds.map some) (hc : c ∈ cs) :
    ∃ d, hexValue? c = some d := by
  have hmem := List.mem_map_of_mem (f := hexValue?) hc
  rw [h] at hmem
  obtain ⟨d, -, hd⟩ := List.mem_map.mp hmem
  exact ⟨d, hd.symm⟩

theorem IsNumeral.notMem (h : IsNumeral cs n) (hc : hexValue? c = none) : c ∉ cs := by
  obtain ⟨ds, hds, -⟩ := h.value
  intro hmem
  obtain ⟨d, hd⟩ := exists_hexValue? hds hmem
  rw [hc] at hd
  cases hd

/-- A letter that is no digit is no part of a numeral. -/
theorem IsNumeral.not_mark_prefix (h : IsNumeral (digits.map signAsZero) n)
    (hletter : hexValue? (signAsZero letter) = none) : ¬['0', letter] <+: digits := fun hmark =>
  h.notMem hletter (List.mem_map_of_mem (hmark.subset (by simp)))

theorem IsNumeral.signs_ne_nil (h : IsNumeral (digits.map signAsZero) n) : digits ≠ [] :=
  mt List.map_eq_nil_iff.mpr h.ne_nil

/-- A text is read if repeated marks stand before a numeral, in which plus signs may lead pairs. -/
theorem ofHexDigits?_eq_some_iff {v : UInt256} : ofHexDigits? cs = some v ↔
    ∃ lower upper digits, trim cs = marks 'x' lower ++ (marks 'X' upper ++ digits) ∧
      SignsLeadPairs digits ∧ IsNumeral (digits.map signAsZero) v.toNat := by
  constructor
  · intro h
    unfold ofHexDigits? at h
    dsimp only at h
    obtain ⟨lower, hlower⟩ := exists_marks 'x' (trim cs)
    obtain ⟨upper, hupper⟩ := exists_marks 'X' (dropMarks 'x' (trim cs))
    rw [hupper] at hlower
    refine ⟨lower, upper, _, hlower, ?_⟩
    generalize dropMarks 'X' (dropMarks 'x' (trim cs)) = digits at h
    split_ifs at h with hrefused
    simp only [Bool.or_eq_true, List.isEmpty_iff, decide_eq_true_eq, not_or, Nat.not_lt]
      at hrefused
    obtain ⟨n, hn, rfl⟩ := Option.map_eq_some_iff.mp h
    obtain ⟨hsigns, hvalue⟩ := (pairsValue?_padded hrefused.2).mp hn
    have hnumeral : IsNumeral (digits.map signAsZero) n :=
      ⟨mt List.map_eq_nil_iff.mp hrefused.1, by rw [List.length_map]; exact hrefused.2, hvalue⟩
    rw [toNat_wrap, Nat.mod_eq_of_lt hnumeral.lt]
    exact ⟨hsigns, hnumeral⟩
  · rintro ⟨lower, upper, digits, htrim, hsigns, hnumeral⟩
    have hle : digits.length ≤ 64 := by
      rw [← List.length_map (f := signAsZero)]
      exact hnumeral.length_le
    have hupper : ¬['0', 'x'] <+: marks 'X' upper ++ digits := by
      cases upper with
      | zero => exact hnumeral.not_mark_prefix rfl
      | succ upper => simp [marks]
    have hpairs := (pairsValue?_padded hle).mpr ⟨hsigns, hnumeral.value⟩
    have htaken : ¬(digits.isEmpty || 64 < digits.length) = true := by
      simpa using ⟨hnumeral.signs_ne_nil, hle⟩
    rw [ofHexDigits?, htrim, dropMarks_marks hupper,
      dropMarks_marks (hnumeral.not_mark_prefix rfl), if_neg htaken, hpairs,
      Option.map_some, Option.some_inj]
    exact ext (Nat.mod_eq_of_lt v.toNat_lt)

/-- Whether a text is a hexadecimal number: blanks around a numeral with at most one mark. -/
def IsHexText (cs : List Char) (n : Nat) : Prop :=
  ∃ mark digits, mark ∈ [[], ['0', 'x'], ['0', 'X']] ∧ trim cs = mark ++ digits ∧ IsNumeral digits n

/-- Hexadecimal numbers are read as what they denote. -/
theorem IsHexText.ofHexDigits?_eq {v : UInt256} (h : IsHexText cs v.toNat) :
    ofHexDigits? cs = some v := by
  obtain ⟨mark, digits, hmark, htrim, hnumeral⟩ := h
  have hsign : '+' ∉ digits := hnumeral.notMem rfl
  have hread : SignsLeadPairs digits ∧ IsNumeral (digits.map signAsZero) v.toNat := by
    rw [map_signAsZero hsign]
    exact ⟨signsLeadPairs_of_notMem hsign, hnumeral⟩
  rw [ofHexDigits?_eq_some_iff]
  simp only [List.mem_cons, List.not_mem_nil, or_false] at hmark
  rcases hmark with rfl | rfl | rfl
  · exact ⟨0, 0, digits, htrim, hread⟩
  · exact ⟨1, 0, digits, htrim, hread⟩
  · exact ⟨0, 1, digits, htrim, hread⟩

theorem le_countP_marks (letter : Char) (isMark : Char → Bool) (hletter : isMark letter = true)
    (count : Nat) : count ≤ (marks letter count).countP isMark := by
  induction count with
  | zero => exact Nat.zero_le _
  | succ count ih =>
    rw [marks, List.countP_cons, List.countP_cons, if_pos hletter]
    omega

theorem trim_sublist (cs : List Char) : (trim cs).Sublist cs := by
  have hright := (List.dropWhile_sublist (l := (cs.dropWhile isBlank).reverse) isBlank).reverse
  rw [List.reverse_reverse] at hright
  exact hright.trans (List.dropWhile_sublist isBlank)

theorem trim_eq_self (h : ∀ c ∈ cs, isBlank c = false) : trim cs = cs := by
  have hkeep {l : List Char} (hl : ∀ c ∈ l, isBlank c = false) : l.dropWhile isBlank = l := by
    cases l with
    | nil => rfl
    | cons c rest =>
      rw [List.dropWhile_cons_of_neg]
      rw [hl c List.mem_cons_self]
      exact Bool.false_ne_true
  rw [trim, hkeep h, hkeep fun c hc => h c (List.mem_reverse.mp hc), List.reverse_reverse]

theorem isBlank_of_hexValue? (h : hexValue? c = some d) : isBlank c = false := by
  have hbounds := (hexValue?_bounds h).2
  rw [Bool.eq_false_iff]
  simp only [isBlank, ne_eq, Bool.or_eq_true, Bool.and_eq_true, decide_eq_true_eq, beq_iff_eq]
  omega

theorem exists_value_hexDigits (count n : Nat) : ∃ ds : List Nat,
    (hexDigits count n).map hexValue? = ds.map some ∧
      Nat.ofDigits 16 ds.reverse = n % 16 ^ count := by
  induction count generalizing n with
  | zero => exact ⟨[], rfl, (Nat.mod_one n).symm⟩
  | succ count ih =>
    obtain ⟨ds, hds, hvalue⟩ := ih (n / 16)
    refine ⟨ds ++ [n % 16], ?_, ?_⟩
    · rw [hexDigits, List.map_append, hds, List.map_singleton,
        hexValue?_hexDigit (Nat.mod_lt n (by decide)), List.map_append, List.map_singleton]
    · rw [List.reverse_append, List.reverse_singleton, List.singleton_append, Nat.ofDigits_cons,
        hvalue, Nat.pow_succ', Nat.mod_mul]

/-- The written form of a number is a hexadecimal number. -/
theorem isHexText_toHexDigits (v : UInt256) : IsHexText v.toHexDigits v.toNat := by
  obtain ⟨ds, hds, hvalue⟩ := exists_value_hexDigits 64 v.toNat
  have hlength := length_hexDigits 64 v.toNat
  rw [toHexDigits]
  generalize hexDigits 64 v.toNat = digits at hds hlength ⊢
  refine ⟨['0', 'x'], digits, by simp, ?_, ?_, hlength.le, ds, hds, ?_⟩
  · apply trim_eq_self
    intro c hc
    rcases List.mem_cons.mp hc with rfl | hc
    · rfl
    rcases List.mem_cons.mp hc with rfl | hc
    · rfl
    obtain ⟨d, hd⟩ := exists_hexValue? hds hc
    exact isBlank_of_hexValue? hd
  · exact List.ne_nil_of_length_eq_add_one hlength
  · rw [hvalue]
    exact (Nat.mod_eq_of_lt v.toNat_lt).symm

theorem ofHexDigits?_toHexDigits (v : UInt256) : ofHexDigits? v.toHexDigits = some v :=
  v.isHexText_toHexDigits.ofHexDigits?_eq

/-- A text is read exactly if repeated marks stand before a numeral in which plus signs may lead
pairs, and any other text is refused. All hexadecimal numbers are read, as what they denote; where a
text has no plus sign and no second mark, nothing else is. -/
theorem hex_reading_exact (text : String) :
    (∀ v, ofHex text = .ok v ↔
      ∃ lower upper digits, trim text.toList = marks 'x' lower ++ (marks 'X' upper ++ digits) ∧
        SignsLeadPairs digits ∧ IsNumeral (digits.map signAsZero) v.toNat) ∧
      ((∃ v, ofHex text = .ok v) ∨ ofHex text = .error ⟨text⟩) ∧
      (∀ n, IsHexText text.toList n → ∃ v, v.toNat = n ∧ ofHex text = .ok v) ∧
      ('+' ∉ text.toList → text.toList.countP (fun c => c = 'x' || c = 'X') ≤ 1 →
        ∀ v, ofHex text = .ok v → IsHexText text.toList v.toNat) := by
  have hread (v : UInt256) : ofHex text = .ok v ↔ ofHexDigits? text.toList = some v := by
    unfold ofHex
    cases ofHexDigits? text.toList with
    | none => exact ⟨nofun, nofun⟩
    | some w => simp
  refine ⟨fun v => (hread v).trans ofHexDigits?_eq_some_iff, ?_, ?_, ?_⟩
  · unfold ofHex
    cases ofHexDigits? text.toList with
    | none => exact .inr rfl
    | some v => exact .inl ⟨v, rfl⟩
  · intro n hn
    obtain ⟨v, rfl⟩ : ∃ v : UInt256, v.toNat = n := by
      obtain ⟨mark, digits, -, -, hnumeral⟩ := hn
      exact ⟨⟨n, hnumeral.lt⟩, rfl⟩
    exact ⟨v, rfl, (hread v).mpr hn.ofHexDigits?_eq⟩
  · intro hsign hmarks v hv
    obtain ⟨lower, upper, digits, htrim, -, hnumeral⟩ :=
      ofHexDigits?_eq_some_iff.mp ((hread v).mp hv)
    have hsub : digits.Sublist text.toList := by
      refine .trans ?_ (trim_sublist text.toList)
      rw [htrim, ← List.append_assoc]
      exact List.sublist_append_right _ digits
    rw [map_signAsZero fun h => hsign (hsub.subset h)] at hnumeral
    have hcount := (trim_sublist text.toList).countP_le (p := fun c => c = 'x' || c = 'X')
    have hlower := le_countP_marks 'x' (fun c => c = 'x' || c = 'X') rfl lower
    have hupper := le_countP_marks 'X' (fun c => c = 'x' || c = 'X') rfl upper
    rw [htrim, List.countP_append, List.countP_append] at hcount
    obtain ⟨rfl, rfl⟩ | ⟨rfl, rfl⟩ | ⟨rfl, rfl⟩ :
        lower = 0 ∧ upper = 0 ∨ lower = 1 ∧ upper = 0 ∨ lower = 0 ∧ upper = 1 := by omega
    · exact ⟨[], digits, by simp, htrim, hnumeral⟩
    · exact ⟨['0', 'x'], digits, by simp, htrim, hnumeral⟩
    · exact ⟨['0', 'X'], digits, by simp, htrim, hnumeral⟩

/-- A plus sign and a second mark are read, though neither is part of a hexadecimal number. -/
theorem sign_and_second_mark_read :
    ofHex "+1" = .ok 1 ∧ (¬∃ n, IsHexText "+1".toList n) ∧
      ofHex "0x0x1" = .ok 1 ∧ ¬∃ n, IsHexText "0x0x1".toList n := by
  have hsign : trim "+1".toList = ['+', '1'] := by decide
  have hmarks : trim "0x0x1".toList = ['0', 'x', '0', 'x', '1'] := by decide
  refine ⟨by decide, ?_, by decide, ?_⟩
  · rintro ⟨n, mark, digits, hmark, htrim, hnumeral⟩
    rw [hsign] at htrim
    obtain rfl : mark = [] := by
      simp only [List.mem_cons, List.not_mem_nil, or_false] at hmark
      rcases hmark with rfl | rfl | rfl
      · rfl
      all_goals cases htrim
    rw [List.nil_append] at htrim
    exact hnumeral.notMem (c := '+') rfl (by simp [← htrim])
  · rintro ⟨n, mark, digits, hmark, htrim, hnumeral⟩
    rw [hmarks] at htrim
    have hletter : 'x' ∈ digits := by
      simp only [List.mem_cons, List.not_mem_nil, or_false] at hmark
      rcases hmark with rfl | rfl | rfl
      · rw [List.nil_append] at htrim
        simp [← htrim]
      · simp only [List.cons_append, List.nil_append, List.cons.injEq, true_and] at htrim
        simp [← htrim]
      · cases htrim
    exact hnumeral.notMem rfl hletter

end HeaderSync.UInt256
