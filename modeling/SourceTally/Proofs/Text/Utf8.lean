import SourceTally.Proofs.Basic

/-!
# Encoding and decoding

Decoding undoes encoding: the bytes of a character are read as that character, whatever follows them
(`Text.pieces_encodeChar_append`), so a text is found again in its bytes
(`Text.decodeLossy_encode`). Encoding undoes decoding where no byte is malformed, since the bytes
that make up one character are just those of its encoding (`Text.encodeChar_codePoint`). So the
bytes that can be decoded are those of texts (`Text.decode?_eq_some_iff`).

A byte below `0x80` stands in the bytes of a text only for the character of that number
(`Text.byte_mem_encodeChar_iff`).
-/

namespace SourceTally.Text

namespace Lead

theorem ofByte?_two {b : Nat} (hlow : 0xC2 ≤ b) (hhigh : b ≤ 0xDF) :
    ofByte? b = some ⟨1, 0x80, 0xBF⟩ := by
  simp [ofByte?, hlow, hhigh]

theorem ofByte?_three {b : Nat} (hlow : 0xE0 ≤ b) (hhigh : b ≤ 0xEF) :
    ofByte? b = some ⟨2, if b = 0xE0 then 0xA0 else 0x80, if b = 0xED then 0x9F else 0xBF⟩ := by
  interval_cases b <;> rfl

theorem ofByte?_four {b : Nat} (hlow : 0xF0 ≤ b) (hhigh : b ≤ 0xF4) :
    ofByte? b = some ⟨3, if b = 0xF0 then 0x90 else 0x80, if b = 0xF4 then 0x8F else 0xBF⟩ := by
  interval_cases b <;> rfl

/-- Leading bytes are those of characters of two, three and four bytes. -/
theorem cases_of_ofByte? {b : Nat} {lead : Lead} (h : ofByte? b = some lead) :
    (0xC2 ≤ b ∧ b ≤ 0xDF ∧ lead = ⟨1, 0x80, 0xBF⟩) ∨
    (0xE0 ≤ b ∧ b ≤ 0xEF ∧
      lead = ⟨2, if b = 0xE0 then 0xA0 else 0x80, if b = 0xED then 0x9F else 0xBF⟩) ∨
    (0xF0 ≤ b ∧ b ≤ 0xF4 ∧
      lead = ⟨3, if b = 0xF0 then 0x90 else 0x80, if b = 0xF4 then 0x8F else 0xBF⟩) := by
  have hrange : 0xC2 ≤ b ∧ b ≤ 0xDF ∨ 0xE0 ≤ b ∧ b ≤ 0xEF ∨ 0xF0 ≤ b ∧ b ≤ 0xF4 := by
    simp only [ofByte?, Bool.and_eq_true, decide_eq_true_eq, beq_iff_eq] at h
    split_ifs at h <;> omega
  rcases hrange with ⟨hlow, hhigh⟩ | ⟨hlow, hhigh⟩ | ⟨hlow, hhigh⟩
  · rw [ofByte?_two hlow hhigh] at h
    exact .inl ⟨hlow, hhigh, (Option.some.inj h).symm⟩
  · rw [ofByte?_three hlow hhigh] at h
    exact .inr (.inl ⟨hlow, hhigh, (Option.some.inj h).symm⟩)
  · rw [ofByte?_four hlow hhigh] at h
    exact .inr (.inr ⟨hlow, hhigh, (Option.some.inj h).symm⟩)

end Lead

theorem toNat_byte {n : Nat} (h : n < 256) : (UInt8.ofNat n).toNat = n :=
  UInt8.toNat_ofNat_of_lt' h

/-- A byte within the bounds continues a character. -/
theorem continued_byte_cons {follow least greatest n : Nat} (hn : n < 256) (hleast : least ≤ n)
    (hgreatest : n ≤ greatest) (bytes : List UInt8) :
    continued (follow + 1) least greatest (UInt8.ofNat n :: bytes) =
      continued follow 0x80 0xBF bytes + 1 := by
  simp [continued, toNat_byte hn, hleast, hgreatest]

theorem continued_zero (least greatest : Nat) (bytes : List UInt8) :
    continued 0 least greatest bytes = 0 := by
  simp [continued]

/-- A leading byte with as many bytes behind it as it asks for is a character. -/
theorem pieces_lead_cons {n : Nat} {lead : Lead} {following rest : List UInt8} (hlarge : 0x80 ≤ n)
    (hbyte : n < 256) (hlead : Lead.ofByte? n = some lead)
    (hlength : following.length = lead.follow)
    (hcontinued : continued lead.follow lead.least lead.greatest (following ++ rest) =
      lead.follow) :
    pieces (UInt8.ofNat n :: (following ++ rest)) =
      some (Char.ofNat (codePoint lead (UInt8.ofNat n) following)) :: pieces rest := by
  have htake : (following ++ rest).take lead.follow = following := List.take_left' hlength
  have hdrop : (following ++ rest).drop lead.follow = rest := List.drop_left' hlength
  rw [pieces, toNat_byte hbyte, if_neg (Nat.not_lt.2 hlarge), hlead]
  simp only [hcontinued, htake, hdrop, if_true]

section

variable {v : Nat}

theorem pieces_two (hlow : 0x7F < v) (hhigh : v ≤ 0x7FF) (rest : List UInt8) :
    pieces (UInt8.ofNat (v / 64 % 0x20 + 0xC0) :: ([UInt8.ofNat (v % 64 + 0x80)] ++ rest)) =
      some (Char.ofNat v) :: pieces rest := by
  have hlead := Lead.ofByte?_two (b := v / 64 % 0x20 + 0xC0) (by omega) (by omega)
  rw [pieces_lead_cons (by omega) (by omega) hlead rfl]
  · simp (disch := omega) only [codePoint, List.foldl_cons, List.foldl_nil, toNat_byte, Nat.pow_eq,
      Nat.reduceSub, Nat.reducePow]
    congr 3
    omega
  · simp (disch := omega) only [List.cons_append, continued_byte_cons, continued_zero]

theorem pieces_three (hlow : 0x7FF < v) (hhigh : v ≤ 0xFFFF) (hvalid : v < 0xD800 ∨ 0xDFFF < v)
    (rest : List UInt8) :
    pieces (UInt8.ofNat (v / 4096 % 0x10 + 0xE0) ::
        ([UInt8.ofNat (v / 64 % 64 + 0x80), UInt8.ofNat (v % 64 + 0x80)] ++ rest)) =
      some (Char.ofNat v) :: pieces rest := by
  have hlead := Lead.ofByte?_three (b := v / 4096 % 0x10 + 0xE0) (by omega) (by omega)
  rw [pieces_lead_cons (by omega) (by omega) hlead rfl]
  · simp (disch := omega) only [codePoint, List.foldl_cons, List.foldl_nil, toNat_byte, Nat.pow_eq,
      Nat.reduceSub, Nat.reducePow]
    congr 3
    omega
  · have hleast : (if v / 4096 % 0x10 + 0xE0 = 0xE0 then 0xA0 else 0x80) ≤ v / 64 % 64 + 0x80 := by
      split_ifs <;> omega
    have hgreatest :
        v / 64 % 64 + 0x80 ≤ if v / 4096 % 0x10 + 0xE0 = 0xED then 0x9F else 0xBF := by
      split_ifs <;> omega
    simp (disch := first | assumption | omega) only [List.cons_append, continued_byte_cons,
      continued_zero]

theorem pieces_four (hlow : 0xFFFF < v) (hhigh : v < 0x110000) (rest : List UInt8) :
    pieces (UInt8.ofNat (v / 262144 % 8 + 0xF0) ::
        ([UInt8.ofNat (v / 4096 % 64 + 0x80), UInt8.ofNat (v / 64 % 64 + 0x80),
          UInt8.ofNat (v % 64 + 0x80)] ++ rest)) =
      some (Char.ofNat v) :: pieces rest := by
  have hlead := Lead.ofByte?_four (b := v / 262144 % 8 + 0xF0) (by omega) (by omega)
  rw [pieces_lead_cons (by omega) (by omega) hlead rfl]
  · simp (disch := omega) only [codePoint, List.foldl_cons, List.foldl_nil, toNat_byte, Nat.pow_eq,
      Nat.reduceSub, Nat.reducePow]
    congr 3
    omega
  · have hleast : (if v / 262144 % 8 + 0xF0 = 0xF0 then 0x90 else 0x80) ≤ v / 4096 % 64 + 0x80 := by
      split_ifs <;> omega
    have hgreatest :
        v / 4096 % 64 + 0x80 ≤ if v / 262144 % 8 + 0xF0 = 0xF4 then 0x8F else 0xBF := by
      split_ifs <;> omega
    simp (disch := first | assumption | omega) only [List.cons_append, continued_byte_cons,
      continued_zero]

end

/-- The bytes of a character are read as that character. -/
theorem pieces_encodeChar_append (c : Char) (rest : List UInt8) :
    pieces (String.utf8EncodeChar c ++ rest) = some c :: pieces rest := by
  have hvalid : c.val.toNat < 0xD800 ∨ 0xDFFF < c.val.toNat ∧ c.val.toNat < 0x110000 := c.valid
  have hchar : Char.ofNat c.val.toNat = c := Char.ofNat_toNat c
  simp only [String.utf8EncodeChar]
  generalize c.val.toNat = v at *
  rw [← hchar]
  split_ifs with hone htwo hthree
  · rw [List.singleton_append, pieces, toNat_byte (by omega), if_pos (by omega)]
  · exact pieces_two (by omega) htwo rest
  · exact pieces_three (by omega) hthree (by omega) rest
  · exact pieces_four (by omega) (by omega) rest

theorem encode_cons (c : Char) (text : List Char) :
    encode (c :: text) = String.utf8EncodeChar c ++ encode text :=
  List.flatMap_cons

theorem pieces_encode (text : List Char) : pieces (encode text) = text.map some := by
  induction text with
  | nil => rw [encode, List.flatMap_nil, pieces, List.map_nil]
  | cons c text ih => rw [encode_cons, pieces_encodeChar_append, ih, List.map_cons]

/-- A text is read again from its bytes. -/
@[simp]
theorem decodeLossy_encode (text : List Char) : decodeLossy (encode text) = text := by
  rw [decodeLossy, pieces_encode, List.map_map]
  exact List.map_id text

theorem encode_inj {text text' : List Char} : encode text = encode text' ↔ text = text' := by
  refine ⟨fun h => ?_, congrArg encode⟩
  rw [← decodeLossy_encode text, h, decodeLossy_encode]

/-! ## Bytes that are well formed -/

/-- A character that is not cut short has a byte within the bounds next. -/
theorem exists_of_continued {follow least greatest : Nat} {bytes : List UInt8}
    (h : continued (follow + 1) least greatest bytes = follow + 1) :
    ∃ b rest, bytes = b :: rest ∧ least ≤ b.toNat ∧ b.toNat ≤ greatest ∧
      continued follow 0x80 0xBF rest = follow := by
  cases bytes with
  | nil => simp [continued] at h
  | cons b rest =>
    rw [continued] at h
    split at h
    · next hbounds =>
      simp only [Bool.and_eq_true, decide_eq_true_eq] at hbounds
      exact ⟨b, rest, rfl, hbounds.1, hbounds.2, Nat.succ.inj h⟩
    · cases h

theorem toNat_ofNat_char {v : Nat} (h : v < 0xD800 ∨ 0xDFFF < v ∧ v < 0x110000) :
    (Char.ofNat v).val.toNat = v := by
  have hvalid : v.isValidChar := h
  exact (Char.toNat_ofNat v).trans (if_pos hvalid)

theorem byte_eq {b : UInt8} {n : Nat} (h : n = b.toNat) : UInt8.ofNat n = b := by
  rw [h, UInt8.ofNat_toNat]

section

variable {v : Nat}

theorem encodeChar_one (h : v ≤ 0x7F) : String.utf8EncodeChar (Char.ofNat v) = [UInt8.ofNat v] := by
  simp only [String.utf8EncodeChar, toNat_ofNat_char (v := v) (by omega)]
  rw [if_pos h]

theorem encodeChar_two (hlow : 0x7F < v) (hhigh : v ≤ 0x7FF) :
    String.utf8EncodeChar (Char.ofNat v) =
      [UInt8.ofNat (v / 64 % 0x20 + 0xC0), UInt8.ofNat (v % 64 + 0x80)] := by
  simp only [String.utf8EncodeChar, toNat_ofNat_char (v := v) (by omega)]
  rw [if_neg (by omega), if_pos hhigh]

theorem encodeChar_three (hlow : 0x7FF < v) (hhigh : v ≤ 0xFFFF)
    (hvalid : v < 0xD800 ∨ 0xDFFF < v) :
    String.utf8EncodeChar (Char.ofNat v) =
      [UInt8.ofNat (v / 4096 % 0x10 + 0xE0), UInt8.ofNat (v / 64 % 64 + 0x80),
        UInt8.ofNat (v % 64 + 0x80)] := by
  simp only [String.utf8EncodeChar, toNat_ofNat_char (v := v) (by omega)]
  rw [if_neg (by omega), if_neg (by omega), if_pos hhigh]

theorem encodeChar_four (hlow : 0xFFFF < v) (hhigh : v < 0x110000) :
    String.utf8EncodeChar (Char.ofNat v) =
      [UInt8.ofNat (v / 262144 % 8 + 0xF0), UInt8.ofNat (v / 4096 % 64 + 0x80),
        UInt8.ofNat (v / 64 % 64 + 0x80), UInt8.ofNat (v % 64 + 0x80)] := by
  simp only [String.utf8EncodeChar, toNat_ofNat_char (v := v) (by omega)]
  rw [if_neg (by omega), if_neg (by omega), if_neg (by omega)]

end

/-- The code point of well-formed bytes is encoded as these bytes. -/
theorem encodeChar_codePoint {b : UInt8} {lead : Lead} {bytes : List UInt8}
    (hlead : Lead.ofByte? b.toNat = some lead)
    (h : continued lead.follow lead.least lead.greatest bytes = lead.follow) :
    String.utf8EncodeChar (Char.ofNat (codePoint lead b (bytes.take lead.follow))) =
      b :: bytes.take lead.follow := by
  rcases Lead.cases_of_ofByte? hlead with ⟨hlow, hhigh, rfl⟩ | ⟨hlow, hhigh, rfl⟩ |
    ⟨hlow, hhigh, rfl⟩
  · obtain ⟨x, rest, rfl, hx, hx', -⟩ := exists_of_continued h
    change String.utf8EncodeChar (Char.ofNat (b.toNat % 32 * 64 + x.toNat % 64)) = [b, x]
    dsimp only at hx hx'
    rw [encodeChar_two (by omega) (by omega), byte_eq (b := b) (by omega),
      byte_eq (b := x) (by omega)]
  · obtain ⟨x, rest, rfl, hx, hx', h⟩ := exists_of_continued h
    obtain ⟨y, rest, rfl, hy, hy', -⟩ := exists_of_continued h
    change String.utf8EncodeChar
      (Char.ofNat ((b.toNat % 16 * 64 + x.toNat % 64) * 64 + y.toNat % 64)) = [b, x, y]
    dsimp only at hx hx'
    have hx : (b.toNat = 0xE0 → 0xA0 ≤ x.toNat) ∧ 0x80 ≤ x.toNat := by split_ifs at hx <;> omega
    have hx' : (b.toNat = 0xED → x.toNat ≤ 0x9F) ∧ x.toNat ≤ 0xBF := by split_ifs at hx' <;> omega
    rw [encodeChar_three (by omega) (by omega) (by omega), byte_eq (b := b) (by omega),
      byte_eq (b := x) (by omega), byte_eq (b := y) (by omega)]
  · obtain ⟨x, rest, rfl, hx, hx', h⟩ := exists_of_continued h
    obtain ⟨y, rest, rfl, hy, hy', h⟩ := exists_of_continued h
    obtain ⟨z, rest, rfl, hz, hz', -⟩ := exists_of_continued h
    change String.utf8EncodeChar (Char.ofNat
      (((b.toNat % 8 * 64 + x.toNat % 64) * 64 + y.toNat % 64) * 64 + z.toNat % 64)) = [b, x, y, z]
    dsimp only at hx hx'
    have hx : (b.toNat = 0xF0 → 0x90 ≤ x.toNat) ∧ 0x80 ≤ x.toNat := by split_ifs at hx <;> omega
    have hx' : (b.toNat = 0xF4 → x.toNat ≤ 0x8F) ∧ x.toNat ≤ 0xBF := by split_ifs at hx' <;> omega
    rw [encodeChar_four (by omega) (by omega), byte_eq (b := b) (by omega),
      byte_eq (b := x) (by omega), byte_eq (b := y) (by omega), byte_eq (b := z) (by omega)]

theorem encode_of_pieces {bytes : List UInt8} {text : List Char}
    (h : pieces bytes = text.map some) : bytes = encode text := by
  induction bytes using pieces.induct generalizing text with
  | case1 =>
    rw [pieces] at h
    rw [List.map_eq_nil_iff.1 h.symm]
    rfl
  | case2 b bytes hsmall ih =>
    rw [pieces, if_pos hsmall] at h
    obtain ⟨c, text, rfl, hc, hrest⟩ := List.map_eq_cons_iff.1 h.symm
    rw [encode_cons, Option.some.inj hc, encodeChar_one (by omega), UInt8.ofNat_toNat,
      ← ih hrest.symm]
    rfl
  | case3 b bytes hsmall hlead ih =>
    rw [pieces, if_neg hsmall, hlead] at h
    obtain ⟨c, text, rfl, hc, hrest⟩ := List.map_eq_cons_iff.1 h.symm
    cases hc
  | case4 b bytes hsmall lead hlead n =>
    rename_i ih
    rw [pieces, if_neg hsmall, hlead] at h
    obtain ⟨c, text, rfl, hc, hrest⟩ := List.map_eq_cons_iff.1 h.symm
    have hn : continued lead.follow lead.least lead.greatest bytes = lead.follow := by
      by_contra hne
      rw [if_neg hne] at hc
      cases hc
    rw [if_pos hn, Option.some.injEq, hn] at hc
    have hdrop : bytes.drop lead.follow = encode text := hn ▸ ih hrest.symm
    rw [encode_cons, hc, ← hdrop, encodeChar_codePoint hlead hn, List.cons_append,
      List.take_append_drop]

theorem mapM_id_eq_some_iff {α : Type} {as : List (Option α)} {bs : List α} :
    as.mapM id = some bs ↔ as = bs.map some := by
  induction as generalizing bs with
  | nil =>
    rw [List.mapM_nil, eq_comm (a := []), List.map_eq_nil_iff, eq_comm (b := [])]
    exact Option.some_inj
  | cons a as ih =>
    rw [List.mapM_cons, eq_comm (b := bs.map some), List.map_eq_cons_iff]
    cases a with
    | none => simp
    | some a =>
      simp only [id, Option.bind_eq_bind, Option.bind_some, Option.bind_eq_some_iff, ih]
      constructor
      · rintro ⟨rest, rfl, hbs⟩
        exact ⟨a, rest, (Option.some.inj hbs).symm, rfl, rfl⟩
      · rintro ⟨b, rest, rfl, hb, hrest⟩
        cases hb
        exact ⟨rest, hrest.symm, rfl⟩

/-- The bytes that can be decoded are those of the text that they are decoded to. -/
theorem decode?_eq_some_iff {bytes : List UInt8} {text : List Char} :
    decode? bytes = some text ↔ bytes = encode text := by
  rw [decode?, mapM_id_eq_some_iff]
  exact ⟨encode_of_pieces, fun h => h ▸ pieces_encode text⟩

/-! ## Bytes below `0x80` -/

/-- A byte below `0x80` is among the bytes of a character only if it is all of them. -/
theorem byte_mem_encodeChar_iff {n : Nat} (hn : n < 0x80) {c : Char} :
    UInt8.ofNat n ∈ String.utf8EncodeChar c ↔ c.val.toNat = n := by
  have hbyte {m : Nat} (hm : m < 256) : UInt8.ofNat n = UInt8.ofNat m ↔ m = n := by
    rw [← UInt8.toNat_inj, toNat_byte (by omega), toNat_byte hm, eq_comm]
  have hvalid : c.val.toNat < 0x110000 := by
    rcases c.valid with h | h <;> omega
  simp only [String.utf8EncodeChar]
  generalize c.val.toNat = v at *
  split_ifs <;> simp (disch := omega) only [List.mem_cons, List.not_mem_nil, or_false, hbyte] <;>
    omega

end SourceTally.Text
