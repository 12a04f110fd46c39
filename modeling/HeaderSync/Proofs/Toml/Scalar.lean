import HeaderSync.Toml.Statement
import HeaderSync.Toml.Writer
import Mathlib.Data.List.TakeWhile

/-!
# Written scalars are read back

A truth value and an integer are written as one word. The word of an integer holds digits after at
most a minus sign, so it is no date, no time of day and no number with a fraction, and its digits
denote the integer again. A text is written between double quotes, where each of its characters
stands for itself. In each case reading stops at the end of the line.
-/

namespace HeaderSync.Toml
open Text

variable {c : Char} {cs rest word : List Char} {d m fuel depth : Nat} {n : Int} {v : Value}

theorem ne_of_holds {p : Char → Bool} {e : Char} (hc : p c = true) (he : p e = false) : c ≠ e :=
  fun heq => Bool.eq_false_iff.mp he (heq ▸ hc)

theorem isDigit_ofNat (h : d < 10) : (Char.ofNat (48 + d)).isDigit := by
  have hall : ∀ d < 10, (Char.ofNat (48 + d)).isDigit := by decide
  exact hall d h

theorem hexValue?_ofNat (h : d < 10) : hexValue? (Char.ofNat (48 + d)) = some d := by
  have hall : ∀ d < 10, hexValue? (Char.ofNat (48 + d)) = some d := by decide
  exact hall d h

theorem isDigit_of_mem_decimalDigits (h : c ∈ decimalDigits m) : c.isDigit := by
  fun_induction decimalDigits m with
  | case1 m hm =>
    rw [List.mem_singleton] at h
    exact h ▸ isDigit_ofNat hm
  | case2 m hm ih =>
    rcases List.mem_append.mp h with h | h
    · exact ih h
    · rw [List.mem_singleton] at h
      exact h ▸ isDigit_ofNat (Nat.mod_lt _ (by decide))

theorem decimalDigits_ne_nil (m : Nat) : decimalDigits m ≠ [] := by
  rw [decimalDigits]
  split <;> simp

/-- Only the digits of zero start with a zero. -/
theorem head?_decimalDigits (h : (decimalDigits m).head? = some '0') : m = 0 := by
  fun_induction decimalDigits m with
  | case1 m hm =>
    have hzero : Char.ofNat (48 + m) = '0' := Option.some.inj h
    have hvalue := hexValue?_ofNat hm
    rw [hzero] at hvalue
    exact (Option.some.inj hvalue).symm
  | case2 m hm ih =>
    obtain ⟨e, he⟩ := Option.ne_none_iff_exists'.mp
      (mt List.head?_eq_none_iff.mp (decimalDigits_ne_nil (m / 10)))
    rw [List.head?_append, he, Option.some_or] at h
    have hdiv := ih (he.trans h)
    omega

theorem runValue_append_digit (cs : List Char) (h : d < 10) :
    runValue 10 (cs ++ [Char.ofNat (48 + d)]) = 10 * runValue 10 cs + d := by
  have hne : Char.ofNat (48 + d) ≠ '_' := ne_of_holds (isDigit_ofNat h) rfl
  have hkeep : [Char.ofNat (48 + d)].filter (· ≠ '_') = [Char.ofNat (48 + d)] := by simp [hne]
  rw [runValue, List.filter_append, hkeep, List.foldl_append, ← runValue, List.foldl_cons,
    List.foldl_nil, hexValue?_ofNat h, Option.getD_some]

theorem runValue_decimalDigits (m : Nat) : runValue 10 (decimalDigits m) = m := by
  fun_induction decimalDigits m with
  | case1 m hm => simpa [runValue] using runValue_append_digit [] hm
  | case2 m hm ih =>
    rw [runValue_append_digit _ (Nat.mod_lt _ (by decide)), ih]
    omega

theorem isRun_of_forall (hne : cs ≠ []) (h : ∀ c ∈ cs, c.isDigit) : isRun Char.isDigit cs := by
  fun_induction isRun Char.isDigit cs with
  | case1 => exact absurd rfl hne
  | case2 c => exact h c List.mem_cons_self
  | case3 c e cs ih => exact absurd (h '_' (by simp)) (by decide)
  | case4 c cs hcs hunder ih =>
    rw [h c List.mem_cons_self, Bool.true_and]
    exact ih hcs fun e he => h e (List.mem_cons_of_mem _ he)

theorem isPlain_decimalDigits (m : Nat) : isPlain (decimalDigits m) := by
  rw [isPlain, Bool.or_eq_true, Bool.and_eq_true]
  rcases Nat.eq_zero_or_pos m with rfl | hm
  · exact .inl (by rw [decimalDigits]; decide)
  · refine .inr ⟨isRun_of_forall (decimalDigits_ne_nil m) fun _ => isDigit_of_mem_decimalDigits, ?_⟩
    exact decide_eq_true fun hhead => Nat.ne_of_gt hm (head?_decimalDigits hhead)

theorem notMem_decimalDigits (h : c.isDigit = false) : c ∉ decimalDigits m := fun hc =>
  Bool.eq_false_iff.mp h (isDigit_of_mem_decimalDigits hc)

theorem notMem_writeInteger (h : c.isDigit = false) (hsign : c ≠ '-') : c ∉ writeInteger n := by
  unfold writeInteger
  split
  · exact List.not_mem_cons_of_ne_of_not_mem hsign (notMem_decimalDigits h)
  · exact notMem_decimalDigits h

theorem minus_notMem_tail_writeInteger (n : Int) : '-' ∉ (writeInteger n).tail := by
  unfold writeInteger
  split
  · exact notMem_decimalDigits rfl
  · exact fun hc => notMem_decimalDigits rfl (List.mem_of_mem_tail hc)

theorem splitSign_decimalDigits (m : Nat) :
    splitSign (decimalDigits m) = (false, decimalDigits m) := by
  unfold splitSign
  split
  · next h => exact absurd (h ▸ List.mem_cons_self) (notMem_decimalDigits (c := '-') (m := m) rfl)
  · next h => exact absurd (h ▸ List.mem_cons_self) (notMem_decimalDigits (c := '+') (m := m) rfl)
  · rfl

theorem splitSign_writeInteger (n : Int) :
    splitSign (writeInteger n) = (decide (n < 0), decimalDigits n.natAbs) := by
  unfold writeInteger
  split
  · next h => rw [decide_eq_true h, splitSign]
  · next h => rw [decide_eq_false h, splitSign_decimalDigits]

theorem afterMinutes_eq_none (h : ':' ∉ cs) : afterMinutes cs = none := by
  unfold afterMinutes
  split
  · simp at h
  · rfl

theorem afterDate_eq_none (h : '-' ∉ cs.tail) : afterDate cs = none := by
  unfold afterDate
  split
  · simp at h
  · rfl

theorem isMoment_eq_false (hcolon : ':' ∉ cs) (hminus : '-' ∉ cs.tail) : isMoment cs = false := by
  rw [isMoment, afterTime, afterMinutes_eq_none hcolon, afterDate_eq_none hminus]
  rfl

/-- A number without a fraction and an exponent is not a floating-point number. -/
theorem decimal?_eq_none (hpoint : '.' ∉ cs) (hlower : 'e' ∉ cs) (hupper : 'E' ∉ cs) :
    decimal? cs = none := by
  have hmantissa : ∀ c ∈ cs, (decide (c ≠ 'e') && decide (c ≠ 'E')) = true := fun c hc => by
    have hne : c ≠ 'e' := fun heq => hlower (heq ▸ hc)
    have hne' : c ≠ 'E' := fun heq => hupper (heq ▸ hc)
    simp [hne, hne']
  have hwhole : ∀ c ∈ cs, decide (c ≠ '.') = true := fun c hc =>
    decide_eq_true fun heq => hpoint (heq ▸ hc)
  simp only [decimal?, List.takeWhile_eq_self_iff.mpr hmantissa,
    List.dropWhile_eq_nil_iff.mpr hmantissa, List.dropWhile_eq_nil_iff.mpr hwhole]
  simp

theorem integer?_writeInteger (hlow : -0x8000000000000000 ≤ n) (hhigh : n < 0x8000000000000000) :
    integer? (writeInteger n) = some n := by
  have hx := notMem_writeInteger (c := 'x') (n := n) rfl (by decide)
  have ho := notMem_writeInteger (c := 'o') (n := n) rfl (by decide)
  have hb := notMem_writeInteger (c := 'b') (n := n) rfl (by decide)
  unfold integer?
  split
  · next h => simp [h] at hx
  · next h => simp [h] at ho
  · next h => simp [h] at hb
  · simp only [splitSign_writeInteger, isPlain_decimalDigits, runValue_decimalDigits, Bool.not_true,
      Bool.false_eq_true, if_false, decide_eq_true_eq]
    split
    · rw [if_pos (by omega)]
      congr 1
      omega
    · rw [if_pos (by omega)]
      congr 1
      omega

theorem isFloat_writeInteger (n : Int) : isFloat (writeInteger n) = false := by
  have hinf : decimalDigits n.natAbs ≠ ['i', 'n', 'f'] := fun h =>
    notMem_decimalDigits (c := 'i') (m := n.natAbs) rfl (by simp [h])
  have hnan : decimalDigits n.natAbs ≠ ['n', 'a', 'n'] := fun h =>
    notMem_decimalDigits (c := 'n') (m := n.natAbs) rfl (by simp [h])
  rw [isFloat, splitSign_writeInteger]
  simp [hinf, hnan, decimal?_eq_none (notMem_decimalDigits (c := '.') (m := n.natAbs) rfl)
    (notMem_decimalDigits rfl) (notMem_decimalDigits rfl)]

theorem wordValue?_writeInteger (hlow : -0x8000000000000000 ≤ n) (hhigh : n < 0x8000000000000000) :
    wordValue? (writeInteger n) = some (.integer n) := by
  have htrue : writeInteger n ≠ ['t', 'r', 'u', 'e'] := fun h =>
    notMem_writeInteger (c := 't') (n := n) rfl (by decide) (by simp [h])
  have hfalse : writeInteger n ≠ ['f', 'a', 'l', 's', 'e'] := fun h =>
    notMem_writeInteger (c := 'f') (n := n) rfl (by decide) (by simp [h])
  have hmoment := isMoment_eq_false (notMem_writeInteger (c := ':') (n := n) rfl (by decide))
    (minus_notMem_tail_writeInteger n)
  rw [wordValue?, if_neg htrue, if_neg hfalse, hmoment, if_neg Bool.false_ne_true,
    isFloat_writeInteger, if_neg Bool.false_ne_true, integer?_writeInteger hlow hhigh,
    Option.map_some]

theorem writeInteger_ne_nil (n : Int) : writeInteger n ≠ [] := by
  unfold writeInteger
  split
  · exact List.cons_ne_nil _ _
  · exact decimalDigits_ne_nil _

theorem isWordChar_of_isDigit (h : c.isDigit) : isWordChar c := by
  simp [isWordChar, Char.isAlphanum, h]

theorem isWordChar_of_mem_writeInteger (h : c ∈ writeInteger n) : isWordChar c := by
  by_cases hc : c.isDigit
  · exact isWordChar_of_isDigit hc
  · have hsign : c = '-' := by
      by_contra hsign
      exact notMem_writeInteger (Bool.eq_false_iff.mpr hc) hsign h
    subst hsign
    rfl

theorem value_of_isWordChar (h : isWordChar c) :
    value (fuel + 1) depth (c :: cs) = bareValue (c :: cs) := by
  have hbracket : c ≠ '[' := ne_of_holds h rfl
  have hbrace : c ≠ '\x7b' := ne_of_holds h rfl
  have hquote : c ≠ '\x22' := ne_of_holds h rfl
  have hapostrophe : c ≠ '\x27' := ne_of_holds h rfl
  rw [value]
  all_goals simp [*]

/-- A word is read up to the end of its line. -/
theorem value_word (hne : word ≠ []) (h : ∀ c ∈ word, isWordChar c) :
    value (fuel + 1) depth (word ++ '\n' :: rest) =
      (wordValue? word).map (·, '\n' :: rest) := by
  obtain ⟨c, cs, rfl⟩ := List.exists_cons_of_ne_nil hne
  rw [List.cons_append, value_of_isWordChar (h c List.mem_cons_self), ← List.cons_append, bareValue,
    List.takeWhile_append_of_pos h, List.dropWhile_append_of_pos h]
  simp [isWordChar]

theorem untilQuote_verbatim (h : ∀ c ∈ cs, isVerbatim c) :
    untilQuote (cs ++ '\x22' :: rest) = some (cs, rest) := by
  induction cs with
  | nil => rfl
  | cons c cs ih =>
    have hc := h c List.mem_cons_self
    have hquote : c ≠ '\x22' := ne_of_holds hc rfl
    have hescape : c ≠ '\\' := ne_of_holds hc rfl
    have hline : c ≠ '\n' := ne_of_holds hc rfl
    rw [List.cons_append, untilQuote, if_neg hline, ih fun e he => h e (List.mem_cons_of_mem _ he),
      Option.map_some]
    · exact hquote
    · exact fun e es heq => absurd heq hescape

theorem unescape_verbatim (h : ∀ c ∈ cs, isVerbatim c) : unescape cs = some cs := by
  induction cs with
  | nil => rfl
  | cons c cs ih =>
    have hescape : c ≠ '\\' := ne_of_holds (h c List.mem_cons_self) rfl
    rw [unescape, ih fun e he => h e (List.mem_cons_of_mem _ he)]
    · rfl
    · exact fun _ _ _ _ _ heq => absurd heq hescape
    · exact fun _ _ _ _ _ _ _ _ _ heq => absurd heq hescape
    · exact fun _ _ heq => absurd heq hescape
    · exact fun heq => absurd heq hescape

theorem quoted_verbatim (rest : List Char) (h : ∀ c ∈ cs, isVerbatim c) :
    quoted ('\x22' :: cs ++ '\x22' :: '\n' :: rest) = some (String.ofList cs, '\n' :: rest) := by
  have hline : quotedLine ('\x22' :: cs ++ '\x22' :: '\n' :: rest) =
      some (String.ofList cs, '\n' :: rest) := by
    rw [List.cons_append, quotedLine, untilQuote_verbatim h]
    simp [unescape_verbatim h]
  rw [quoted, hline]
  · -- Not three quotes: the second is followed by the line end or is no quote.
    intro after heq
    cases cs with
    | nil => exact absurd heq (by simp)
    | cons c cs =>
      exact ne_of_holds (h c List.mem_cons_self) rfl (List.cons.inj (List.cons.inj heq).2).1
  · exact fun after heq => absurd heq (by simp)

/-- A scalar is written as a word that denotes it, or as verbatim text between double quotes. -/
theorem written_cases (h : writeScalar? v = some cs) :
    (cs ≠ [] ∧ (∀ c ∈ cs, isWordChar c) ∧ wordValue? cs = some v) ∨
      ∃ text, (∀ c ∈ text, isVerbatim c) ∧ cs = '\x22' :: text ++ ['\x22'] ∧
        v = .text (String.ofList text) := by
  cases v with
  | boolean b =>
    cases h
    cases b
    · exact .inl ⟨List.cons_ne_nil _ _, List.all_eq_true.mp rfl, rfl⟩
    · exact .inl ⟨List.cons_ne_nil _ _, List.all_eq_true.mp rfl, rfl⟩
  | integer n =>
    obtain ⟨⟨hlow, hhigh⟩, hcs⟩ := Option.ite_none_right_eq_some.mp h
    cases hcs
    exact .inl ⟨writeInteger_ne_nil n, fun _ => isWordChar_of_mem_writeInteger,
      wordValue?_writeInteger hlow hhigh⟩
  | text s =>
    obtain ⟨hall, hcs⟩ := Option.ite_none_right_eq_some.mp h
    cases hcs
    exact .inr ⟨s.toList, List.all_eq_true.mp hall, rfl, by rw [String.ofList_toList]⟩
  | _ => exact absurd h (by simp [writeScalar?])

/-- What is written for a scalar is read back. -/
theorem value_writeScalar? (h : writeScalar? v = some cs) :
    value (fuel + 1) depth (cs ++ '\n' :: rest) = some (v, '\n' :: rest) := by
  rcases written_cases h with ⟨hne, hword, hvalue⟩ | ⟨text, htext, rfl, rfl⟩
  · rw [value_word hne hword, hvalue, Option.map_some]
  · have hquoted := quoted_verbatim rest htext
    simp only [List.cons_append, List.append_assoc, List.nil_append] at hquoted ⊢
    rw [value, hquoted, Option.map_some]

end HeaderSync.Toml
