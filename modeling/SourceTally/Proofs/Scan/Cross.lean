import SourceTally.Proofs.Scan.Run

/-!
# Out of a comment or a string

A scan that begins inside a comment or a string first crosses a part of the line that is all of one
kind (`Profile.Crosses`). Either the line ends there (`Profile.Crosses.scanLine_of_ends`), or a
closing delimiter follows, and what is behind that is scanned as if it stood alone
(`Profile.Crosses.scanLine_of_exit`).
-/

namespace SourceTally

/-- The line with painted characters in front of it; `closes` when a block comment ends among
them. -/
def ScannedLine.behind (line : ScannedLine) (inside : Painted) (closes : Bool) : ScannedLine where
  painted := inside ++ line.painted
  state := line.state
  unterminatedString := line.unterminatedString
  closedBlock := closes || line.closedBlock

namespace Profile

variable {p : Profile} {kind : Kind} {state next last : ScanState}
  {token text more after line : List Char} {r : Run} {closes unterminated : Bool}
  {scanned : ScannedLine}

/-- A step over the first part of a text, and a run over the other part. -/
theorem Runs.of_moves (hne : token ≠ [])
    (hmoves : p.Moves (token ++ after) state ⟨token.length, kind, next, closes⟩)
    (hafter : p.Runs next after r) :
    p.Runs state (token ++ after)
      ⟨token.map (·, kind) ++ r.painted, r.state, closes || r.closedBlock⟩ := by
  have hrest : p.Runs next ((token ++ after).drop token.length) r := by rwa [List.drop_left]
  have hruns := Runs.step (List.append_ne_nil_of_left_ne_nil hne after) hmoves hrest
  rwa [List.take_left] at hruns

/-- In front of a text that `after` follows, the scan takes steps that are all of one kind and close
no block comment for good, up to the end of the text. -/
inductive Crosses (p : Profile) (kind : Kind) (after : List Char) :
    ScanState → List Char → ScanState → Prop where
  | nil {state : ScanState} : p.Crosses kind after state [] state
  | step {state next last : ScanState} {token more : List Char} : token ≠ [] →
      p.Moves (token ++ (more ++ after)) state ⟨token.length, kind, next, false⟩ →
      p.Crosses kind after next more last → p.Crosses kind after state (token ++ more) last

/-- A step over a single character. -/
theorem Crosses.cons {c : Char}
    (hmoves : p.Moves (c :: (more ++ after)) state ⟨1, kind, next, false⟩)
    (h : p.Crosses kind after next more last) : p.Crosses kind after state (c :: more) last :=
  Crosses.step (List.cons_ne_nil c []) hmoves h

/-- A text that is crossed takes its kind, and the run goes on behind it. -/
theorem Crosses.runs (h : p.Crosses kind after state text last) (hafter : p.Runs last after r) :
    p.Runs state (text ++ after) ⟨text.map (·, kind) ++ r.painted, r.state, r.closedBlock⟩ := by
  induction h with
  | nil => exact hafter
  | @step state next last token more hne hmoves _ ih =>
    have hruns := Runs.of_moves hne hmoves (ih hafter)
    rwa [← List.append_assoc, ← List.append_assoc, ← List.map_append] at hruns

/-- What is left of a short line is scanned from outside of everything. -/
theorem exists_scanLine_of_suffix (valid : p.Valid) (h : after <:+ line)
    (short : Text.byteLength line < 2 ^ 32) :
    ∃ scanned, p.scanLine .normal after = .ok scanned := by
  obtain ⟨before, rfl⟩ := h
  rw [Text.byteLength_append] at short
  exact exists_scanLine valid trivial (by simp only [ScanState.depth]; omega)

/-- A line that is crossed up to its end. -/
theorem Crosses.scanLine_of_ends (valid : p.Valid) (h : p.Crosses kind [] state line last)
    (hend : p.Ends last next unterminated) :
    p.scanLine state line = .ok ⟨line.map (·, kind), next, unterminated, false⟩ := by
  have hruns := h.runs .nil
  rw [List.append_nil, List.append_nil] at hruns
  exact (scanLine_eq_ok_iff valid).2 ⟨_, hruns, hend, rfl, rfl⟩

/-- A line that is crossed up to a closing delimiter, behind which the scan is outside of
everything. -/
theorem Crosses.scanLine_of_exit (valid : p.Valid)
    (h : p.Crosses kind (token ++ after) state text last) (hne : token ≠ [])
    (hexit : p.Moves (token ++ after) last ⟨token.length, kind, .normal, closes⟩)
    (hafter : p.scanLine .normal after = .ok scanned) :
    p.scanLine state (text ++ (token ++ after)) =
      .ok (scanned.behind ((text ++ token).map (·, kind)) closes) := by
  obtain ⟨r, hr, hend, hpainted, hclosed⟩ := (scanLine_eq_ok_iff valid).1 hafter
  have hruns := h.runs (Runs.of_moves hne hexit hr)
  refine (scanLine_eq_ok_iff valid).2 ⟨_, hruns, hend, ?_, ?_⟩
  · simp only [ScannedLine.behind, hpainted, List.map_append, List.append_assoc]
  · simp only [ScannedLine.behind, hclosed]

end Profile

end SourceTally
