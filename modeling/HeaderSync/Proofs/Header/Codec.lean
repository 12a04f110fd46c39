import HeaderSync.Header.Codec

/-!
# Headers and their bytes

Every field of an encoded header has a fixed width, so reading a field either takes exactly the
bytes that writing it makes, or finds too few. Hence headers and lists of 80 bytes determine each
other, and a list of another length is refused at the first field that it does not hold in full, or
after the last one.
-/

namespace HeaderSync.Header
open Bytes

structure Reads {α : Type} (width : Nat) (write : α → List UInt8)
    (read : Nat → List UInt8 → Except DecodeError (α × List UInt8)) : Prop where
  length_write : ∀ a, (write a).length = width
  append : ∀ start a rest, read start (write a ++ rest) = .ok (a, rest)
  exists_append : ∀ bytes, width ≤ bytes.length → ∃ a rest, bytes = write a ++ rest
  short : ∀ start bytes, bytes.length < width →
    read start bytes = .error (.unexpectedEnd start width bytes.length)

theorem reads_word : Reads 4 (fun w : UInt32 => little 4 w.toNat) readWord where
  length_write w := length_little 4 w.toNat
  append start w rest := by
    have hlt : w.toNat < 1 <<< (8 * 4) := w.toNat_lt
    have hvalue : UInt32.ofNat (ofLittle (little 4 w.toNat)) = w := by
      rw [ofLittle_little, Nat.mod_eq_of_lt hlt, UInt32.ofNat_toNat]
    have hlong : ¬(little 4 w.toNat ++ rest).length < 4 := by
      rw [List.length_append, length_little]
      omega
    rw [readWord, if_neg hlong, List.take_left' (length_little _ _),
      List.drop_left' (length_little _ _), hvalue]
  exists_append bytes hlong := by
    have hlength : (bytes.take 4).length = 4 := List.length_take_of_le hlong
    have hlt := ofLittle_lt (bytes.take 4)
    have hback := little_ofLittle (bytes.take 4)
    rw [hlength] at hlt hback
    have hword : (UInt32.ofNat (ofLittle (bytes.take 4))).toNat = ofLittle (bytes.take 4) :=
      UInt32.toNat_ofNat_of_lt' hlt
    refine ⟨UInt32.ofNat (ofLittle (bytes.take 4)), bytes.drop 4, ?_⟩
    rw [hword, hback, List.take_append_drop]
  short start bytes hshort := by
    rw [readWord, if_pos hshort]

theorem reads_digest : Reads 32 Digest.toList readDigest where
  length_write d := d.length_toList
  append start d rest := by
    rw [readDigest, List.take_left' d.length_toList, Digest.ofList?_toList,
      List.drop_left' d.length_toList]
  exists_append bytes hlong := by
    have hlength : (bytes.take 32).length = 32 := List.length_take_of_le hlong
    obtain ⟨d, hd⟩ : ∃ d, Digest.ofList? (bytes.take 32) = some d := ⟨_, dif_pos hlength⟩
    refine ⟨d, bytes.drop 32, ?_⟩
    rw [Digest.toList_of_ofList? hd, List.take_append_drop]
  short start bytes hshort := by
    have hnone : Digest.ofList? (bytes.take 32) = none := by
      apply dif_neg
      rw [List.length_take]
      omega
    rw [readDigest, hnone]

/-- The start and the width of each field of an encoded header. -/
def layout : List (Nat × Nat) := [(0, 4), (4, 32), (36, 32), (68, 4), (72, 4), (76, 4)]

/-- The first field that a number of bytes does not hold in full. -/
def firstMissing? (length : Nat) : Option (Nat × Nat) :=
  layout.find? fun (start, width) => length < start + width

theorem layout_pairwise : layout.Pairwise fun a b => a.1 + a.2 ≤ b.1 := by decide

/-- A field is the first one missing if the bytes before it are there and those from its start on
are too few. -/
theorem firstMissing?_eq {start width rest total : Nat} (hfield : (start, width) ∈ layout)
    (htotal : total = start + rest) (hshort : rest < width) :
    firstMissing? total = some (start, width) := by
  obtain ⟨before, after, hsplit⟩ := List.append_of_mem hfield
  have hordered := layout_pairwise
  rw [hsplit, List.pairwise_append] at hordered
  rw [firstMissing?, List.find?_eq_some_iff_append]
  refine ⟨?_, before, after, hsplit, fun field hbefore => ?_⟩
  · simp only [decide_eq_true_eq]
    omega
  · have hends := hordered.2.2 field hbefore _ List.mem_cons_self
    simp only [Bool.not_eq_true', decide_eq_false_iff_not, Nat.not_lt]
    omega

theorem firstMissing?_eq_none {length : Nat} (hlong : 80 ≤ length) :
    firstMissing? length = none := by
  have hends : ∀ field ∈ layout, field.1 + field.2 ≤ 80 := by decide
  rw [firstMissing?, List.find?_eq_none]
  intro field hfield
  have hend := hends field hfield
  simp only [decide_eq_true_eq, Nat.not_lt]
  omega

theorem decode_encode_append (h : Header) (rest : List UInt8) :
    decode (h.encode ++ rest) =
      if rest.isEmpty then .ok h else .error (.trailingBytes 80 rest.length) := by
  simp only [decode, encode, List.append_assoc, reads_word.append, reads_digest.append, bind,
    Except.bind, Int32.toInt32_toUInt32]
  rfl

/-- Whether a result is the refusal of too few bytes, at the first field that they do not hold. -/
def Refused {β : Type} (total : Nat) (result : Except DecodeError β) : Prop :=
  ∃ start width, firstMissing? total = some (start, width) ∧
    result = .error (.unexpectedEnd start width (total - start))

/-- One field is read, or the bytes from its start on are too few for it. -/
theorem Reads.bind {α β : Type} {width start total : Nat} {write : α → List UInt8}
    {read : Nat → List UInt8 → Except DecodeError (α × List UInt8)} (hr : Reads width write read)
    (hfield : (start, width) ∈ layout) {bytes : List UInt8} (htotal : total = start + bytes.length)
    {next : α × List UInt8 → Except DecodeError β} {Q : Prop}
    (hnext : ∀ a rest, bytes = write a ++ rest → bytes.length = width + rest.length →
      Refused total (next (a, rest)) ∨ Q) :
    Refused total (read start bytes >>= next) ∨ Q := by
  rcases Nat.lt_or_ge bytes.length width with hshort | hlong
  · refine .inl ⟨start, width, firstMissing?_eq hfield htotal hshort, ?_⟩
    rw [hr.short start bytes hshort, htotal, Nat.add_sub_cancel_left]
    rfl
  · obtain ⟨a, rest, rfl⟩ := hr.exists_append bytes hlong
    rw [hr.append]
    exact hnext a rest rfl (by rw [List.length_append, hr.length_write])

/-- A list of bytes is refused, or begins with an encoded header. -/
theorem decode_cases (bytes : List UInt8) :
    Refused bytes.length (decode bytes) ∨ ∃ h rest, bytes = encode h ++ rest := by
  refine reads_word.bind (by decide) (Nat.zero_add _).symm fun version rest₁ h₁ hlength₁ => ?_
  refine reads_digest.bind (by decide) hlength₁ fun parent rest₂ h₂ hlength₂ => ?_
  refine reads_digest.bind (by decide) (by omega) fun merkleRoot rest₃ h₃ hlength₃ => ?_
  refine reads_word.bind (by decide) (by omega) fun time rest₄ h₄ hlength₄ => ?_
  refine reads_word.bind (by decide) (by omega) fun bits rest₅ h₅ hlength₅ => ?_
  refine reads_word.bind (by decide) (by omega) fun nonce rest₆ h₆ hlength₆ => ?_
  refine .inr ⟨⟨version.toInt32, parent, merkleRoot, time, ⟨bits⟩, nonce⟩, rest₆, ?_⟩
  rw [h₁, h₂, h₃, h₄, h₅, h₆]
  simp only [encode, UInt32.toUInt32_toInt32, List.append_assoc]

/-- Headers and lists of 80 bytes determine each other. A shorter list is refused at the first field
that it does not hold in full, with the number of bytes from there on, and a longer one after the
last field. -/
theorem codec_exact :
    (∀ h : Header, decode h.encode = .ok h) ∧
      ∀ bytes : List UInt8,
        ((∃ h, decode bytes = .ok h) ↔ bytes.length = 80) ∧
        (∀ h, decode bytes = .ok h → h.encode = bytes) ∧
        (bytes.length < 80 → ∃ start width, firstMissing? bytes.length = some (start, width) ∧
          decode bytes = .error (.unexpectedEnd start width (bytes.length - start))) ∧
        (80 < bytes.length → decode bytes = .error (.trailingBytes 80 (bytes.length - 80))) := by
  have hround (h : Header) : decode h.encode = .ok h := by
    simpa using decode_encode_append h []
  refine ⟨hround, fun bytes => ?_⟩
  obtain ⟨start, width, hfirst, herror⟩ | ⟨h, rest, rfl⟩ := decode_cases bytes
  · have hshort : bytes.length < 80 := by
      apply Nat.lt_of_not_le
      intro hlong
      rw [firstMissing?_eq_none hlong] at hfirst
      cases hfirst
    rw [herror]
    refine ⟨⟨?_, by omega⟩, nofun, fun _ => ⟨start, width, hfirst, rfl⟩, by omega⟩
    rintro ⟨h, hok⟩
    cases hok
  · have hlength : (h.encode ++ rest).length = 80 + rest.length := by
      rw [List.length_append, length_encode, encodedLength]
    rw [decode_encode_append, hlength]
    cases rest with
    | nil => simp
    | cons b rest => simp

end HeaderSync.Header
