/-!
# UTF-8

Files are bytes. `pieces` cuts them into characters and malformed pieces, where a malformed piece
is as long a beginning of some character's encoding as the bytes offer, or a single byte that
begins none. Source files are read with the replacement character in place of each malformed
piece, settings are read only if there is none. Names of files are bytes too, and those that a text
spells are encoded from it.
-/

namespace SourceTally.Text

/-- The number of bytes of a text. -/
def byteLength (text : List Char) : Nat :=
  text.foldr (fun c n => c.utf8Size + n) 0

/-- The bytes of a text. -/
def encode (text : List Char) : List UInt8 :=
  text.flatMap String.utf8EncodeChar

/-- What a leading byte of a character of several bytes asks for: how many bytes follow, and the
least and the greatest value of the first of them. -/
structure Lead where
  follow : Nat
  least : Nat
  greatest : Nat

/-- The demands of a leading byte, if it is one. -/
def Lead.ofByte? (b : Nat) : Option Lead :=
  if 0xC2 ≤ b && b ≤ 0xDF then some ⟨1, 0x80, 0xBF⟩
  else if b == 0xE0 then some ⟨2, 0xA0, 0xBF⟩
  else if b == 0xED then some ⟨2, 0x80, 0x9F⟩
  else if 0xE1 ≤ b && b ≤ 0xEF then some ⟨2, 0x80, 0xBF⟩
  else if b == 0xF0 then some ⟨3, 0x90, 0xBF⟩
  else if 0xF1 ≤ b && b ≤ 0xF3 then some ⟨3, 0x80, 0xBF⟩
  else if b == 0xF4 then some ⟨3, 0x80, 0x8F⟩
  else none

/-- How many of the bytes continue a character that still wants `follow` bytes, the first of them
within the given bounds. -/
def continued : (follow least greatest : Nat) → List UInt8 → Nat
  | follow + 1, least, greatest, b :: bytes =>
    if least ≤ b.toNat && b.toNat ≤ greatest then continued follow 0x80 0xBF bytes + 1 else 0
  | _, _, _, _ => 0

/-- The code point that a leading byte and the bytes that follow it stand for. -/
def codePoint (lead : Lead) (b : UInt8) (following : List UInt8) : Nat :=
  following.foldl (fun n x => n * 64 + x.toNat % 64) (b.toNat % Nat.pow 2 (6 - lead.follow))

/-- The characters of the bytes, with `none` for each malformed piece. -/
def pieces : List UInt8 → List (Option Char)
  | [] => []
  | b :: bytes =>
    if b.toNat < 0x80 then some (Char.ofNat b.toNat) :: pieces bytes
    else
      match Lead.ofByte? b.toNat with
      | none => none :: pieces bytes
      | some lead =>
        let n := continued lead.follow lead.least lead.greatest bytes
        let piece :=
          if n = lead.follow then some (Char.ofNat (codePoint lead b (bytes.take n))) else none
        piece :: pieces (bytes.drop n)
termination_by bytes => bytes.length
decreasing_by all_goals (simp only [List.length_cons, List.length_drop]; omega)

/-- The text of the bytes, with the replacement character for each malformed piece. -/
def decodeLossy (bytes : List UInt8) : List Char :=
  (pieces bytes).map (·.getD '\uFFFD')

/-- The text of the bytes, if none of them is malformed. -/
def decode? (bytes : List UInt8) : Option (List Char) :=
  (pieces bytes).mapM id

end SourceTally.Text
