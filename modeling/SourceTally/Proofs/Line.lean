import SourceTally.Line
import SourceTally.Proofs.Scan.Inert

/-!
# The category of a line by itself

A line is blank by its text alone, and it is never a header by itself. What the scan carries into a
line shows at its beginning: a line that begins inside a string is no comment.
-/

namespace SourceTally

namespace ScannedLine

/-- A line by itself is blank, code or a comment. -/
theorem category_ne_header (line : ScannedLine) : line.category ≠ .header := by
  unfold category Painted.category
  split
  · nofun
  · split <;> nofun

/-- A line is blank when all its characters are white space. -/
theorem category_eq_blank_iff {line : ScannedLine} :
    line.category = .blank ↔ line.painted.all (Text.isSpace ·.1) = true := by
  unfold category Painted.category
  split
  next h => exact iff_of_true rfl h
  next h => exact iff_of_false (by split <;> nofun) h

end ScannedLine

namespace Profile

variable {p : Profile} {state : ScanState} {line : List Char} {scanned : ScannedLine}

/-- A scanned line is blank when its text is. -/
theorem category_eq_blank_iff_isBlank (valid : p.Valid)
    (h : p.scanLine state line = .ok scanned) :
    scanned.category = .blank ↔ Text.isBlank line = true := by
  rw [ScannedLine.category_eq_blank_iff, ← text_of_scanLine valid h, Text.isBlank, List.all_map]
  rfl

/-- A step inside a comment or string takes a part of it. -/
theorem Moves.kind_eq {rest : List Char} {st : Step} (h : p.Moves rest state st)
    (hin : state ≠ .normal) : st.kind = state.kind := by
  cases h with
  | code | lineComment | openBlock | openString => exact absurd rfl hin
  | nest | unnest | closeBlock | inBlock => rfl
  | escaped | escape | doubled | closeString | inString => rfl

/-- What is open in front of a line shows at its beginning. -/
theorem exists_painted_eq_cons (valid : p.Valid) {c : Char} {cs : List Char}
    (h : p.scanLine state (c :: cs) = .ok scanned) (hin : state ≠ .normal) :
    ∃ more, scanned.painted = (c, state.kind) :: more := by
  obtain ⟨r, hr, -, hpainted, -⟩ := (scanLine_eq_ok_iff valid).1 h
  cases hr with
  | step hne hmoves _ =>
    obtain ⟨n, hn⟩ := hmoves.exists_size_eq valid hne
    simp only [hn, hmoves.kind_eq hin, List.take_succ_cons, List.map_cons, List.cons_append]
      at hpainted
    exact ⟨_, hpainted⟩

/-- A line that begins inside a string is empty, or its first character is part of the string and
makes it a line of code. -/
theorem painted_of_string (valid : p.Valid) (h : p.scanLine state line = .ok scanned)
    (hkind : state.kind = .string) :
    scanned.painted = [] ∨ scanned.painted.any Painted.showsCode = true := by
  have hin : state ≠ .normal := by
    rintro rfl
    cases hkind
  cases line with
  | nil => exact .inl (List.map_eq_nil_iff.1 (text_of_scanLine valid h))
  | cons c cs =>
    obtain ⟨more, hmore⟩ := exists_painted_eq_cons valid h hin
    refine .inr ?_
    rw [hmore, hkind]
    rfl

/-- A line that begins inside a string is no comment. -/
theorem category_ne_comment_of_inString (valid : p.Valid) {pair : Nat} {escaped : Bool}
    (h : p.scanLine (.inString pair escaped) line = .ok scanned) : scanned.category ≠ .comment := by
  unfold ScannedLine.category Painted.category
  rcases painted_of_string valid h rfl with hnil | hshows
  · rw [hnil]
    nofun
  · rw [hshows, if_pos rfl]
    split <;> nofun

end Profile

end SourceTally
