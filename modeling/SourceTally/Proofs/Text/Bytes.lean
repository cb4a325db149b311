import Mathlib

/-!
# The order of texts by their bytes

Texts are ordered by their characters. This is also the order of their bytes: of two characters the
greater one has the greater encoding, and they differ before either encoding ends
(`Text.encodeChar_append_lt`).
-/

namespace SourceTally.Text

/-- The bytes of a text. -/
def bytes (text : String) : List UInt8 :=
  text.toUTF8.data.toList

/-- The bytes of a text are those of its characters. -/
theorem bytes_eq_flatMap (text : String) :
    bytes text = text.toList.flatMap String.utf8EncodeChar := by
  have hbytes : text.toByteArray = text.toList.utf8Encode := by
    rw [← String.toByteArray_ofList, String.ofList_toList]
  show text.toByteArray.data.toList = _
  rw [hbytes, List.utf8Encode, List.data_toByteArray]

/-- Bytes are compared as the numbers that they are made from, as long as these are small. -/
theorem byte_cons_lt_cons_iff {a b : Nat} (ha : a < 256) (hb : b < 256) {x y : List UInt8} :
    UInt8.ofNat a :: x < UInt8.ofNat b :: y ↔ a < b ∨ a = b ∧ x < y := by
  rw [List.cons_lt_cons_iff, UInt8.lt_iff_toNat_lt, ← UInt8.toNat_inj, UInt8.toNat_ofNat_of_lt' ha,
    UInt8.toNat_ofNat_of_lt' hb]

/-- The lesser number is less without its last digit to the base 64, or only its last digit is. -/
theorem div_lt_or_mod_lt {v w : Nat} (h : v < w) :
    v / 64 < w / 64 ∨ v / 64 = w / 64 ∧ v % 64 < w % 64 := by
  omega

/-- The bytes of the lesser character are less, whatever follows. The leading byte tells the number
of bytes, and encodings of one length are compared by their digits to the base 64. -/
theorem encodeChar_append_lt {c d : Char} (h : c < d) (x y : List UInt8) :
    String.utf8EncodeChar c ++ x < String.utf8EncodeChar d ++ y := by
  have hlt : c.val.toNat < d.val.toNat := UInt32.lt_iff_toNat_lt.1 (Char.lt_def.1 h)
  have hd : d.val.toNat < 0x110000 := by
    have hvalid := d.valid
    simp only [UInt32.isValidChar, Nat.isValidChar] at hvalid
    omega
  simp only [String.utf8EncodeChar]
  generalize c.val.toNat = v at *
  generalize d.val.toNat = w at *
  by_cases hlong : v ≤ 0xFFFF
  · split_ifs <;>
      simp (disch := omega) only [List.cons_append, byte_cons_lt_cons_iff, List.nil_append] <;>
      omega
  · simp (disch := omega) only [if_neg, List.cons_append, byte_cons_lt_cons_iff, List.nil_append]
    -- Taking off the last digits shows the first digit that differs.
    rcases div_lt_or_mod_lt hlt with hlt | ⟨heq, hlt⟩
    · rcases div_lt_or_mod_lt hlt with hlt | ⟨heq, hlt⟩
      · rcases div_lt_or_mod_lt hlt with hlt | ⟨heq, hlt⟩
        · exact .inl (by omega)
        · exact .inr ⟨by omega, .inl (by omega)⟩
      · exact .inr ⟨by omega, .inr ⟨by omega, .inl (by omega)⟩⟩
    · exact .inr ⟨by omega, .inr ⟨by omega, .inr ⟨by omega, .inl (by omega)⟩⟩⟩

/-- The order of texts is that of their bytes. -/
theorem bytes_lt_of_lt {a b : String} (h : a < b) : bytes a < bytes b := by
  have hchars : a.toList < b.toList := String.lt_iff_toList_lt.1 h
  rw [bytes_eq_flatMap, bytes_eq_flatMap]
  generalize a.toList = x at hchars
  generalize b.toList = y at hchars
  induction hchars with
  | @nil c cs =>
    obtain ⟨first, more, hencode⟩ :=
      List.exists_cons_of_ne_nil (String.utf8EncodeChar_ne_nil (c := c))
    rw [List.flatMap_cons, hencode]
    exact List.nil_lt_cons first _
  | rel h => exact encodeChar_append_lt h _ _
  | cons _ ih => exact List.append_left_lt ih

end SourceTally.Text
