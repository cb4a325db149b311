import SourceTally.File.Basic
import SourceTally.Proofs.Scan.Run

/-!
# Pushing the lines of a file

`Progress.pushAll` scans each line, asks the header policy for its category and counts it. A
successful run is a derivation (`Progress.Pushes`, `Progress.pushAll_eq_ok_iff`) that has the scan
of each line beside its result. The scans are those of `Profile.scanLines`, whatever the policy does
(`Progress.Pushes.scanLines`). Fewer than 2³² lines of fewer than 2³² bytes are always pushed to the
end (`Progress.exists_pushes`).
-/

namespace SourceTally

/-! ## Counts that fit -/

/-- None of the counts is greater than `n`. -/
structure Counts.AtMost (n : Nat) (c : Counts) : Prop where
  blank : c.blank ≤ n
  code : c.code ≤ n
  comment : c.comment ≤ n
  header : c.header ≤ n
  total : c.total ≤ n

/-- One more line is counted as long as the counts are below the limit. -/
theorem Counts.AtMost.record? {n : Nat} {c : Counts} (h : c.AtMost n) (room : n < maxCount)
    (category : Category) : ∃ c', c.record? category = .ok c' ∧ c'.AtMost (n + 1) := by
  obtain ⟨hblank, hcode, hcomment, hheader, htotal⟩ := h
  have hsum : (c + one category).AtMost (n + 1) := by
    cases category with
    | blank | code | comment | header => constructor <;> exact Nat.add_le_add ‹_› (by decide)
  obtain ⟨hblank', hcode', hcomment', hheader', htotal'⟩ := hsum
  refine ⟨c + one category, if_pos ?_, ⟨hblank', hcode', hcomment', hheader', htotal'⟩⟩
  simp only [fits, Bool.and_eq_true, decide_eq_true_eq]
  omega

namespace Progress

variable {p : Profile} {policy : HeaderPolicy} {progress last : Progress} {lines : List (List Char)}
  {results : List LineResult} {scans : List ScannedLine}

/-! ## Pushes -/

/-- The result for a line, from its scan. -/
def resultOf (policy : HeaderPolicy) (progress : Progress) (line : List Char)
    (scanned : ScannedLine) : LineResult :=
  ⟨progress.lines + 1,
    (policy.advance progress.phase (progress.lines + 1) line scanned).1,
    scanned.warning (progress.lines + 1)⟩

/-- The progress after a line, from its scan and the counts that include it. -/
def after (policy : HeaderPolicy) (progress : Progress) (line : List Char)
    (scanned : ScannedLine) (counts : Counts) : Progress where
  lines := progress.lines + 1
  state := scanned.state
  phase := (policy.advance progress.phase (progress.lines + 1) line scanned).2
  blockOpenedAt :=
    openedAt progress.state.isInBlock scanned.state.isInBlock progress.blockOpenedAt
      (progress.lines + 1)
  stringOpenedAt :=
    openedAt progress.state.isInString scanned.state.isInString progress.stringOpenedAt
      (progress.lines + 1)
  counts := counts
  warnings := (scanned.warning (progress.lines + 1)).toList ++ progress.warnings

/-- A line that can be scanned is pushed as far as it can be counted. -/
theorem push_of_scanLine {line : List Char} {scanned : ScannedLine}
    (h : p.scanLine progress.state line = .ok scanned) :
    push p policy progress line =
      (progress.counts.record? (progress.resultOf policy line scanned).category).map
        fun counts => (progress.resultOf policy line scanned,
          progress.after policy line scanned counts) := by
  unfold push
  rw [h]
  rfl

/-- A push succeeds when the line can be scanned and counted. -/
theorem push_eq_ok_iff {next : Progress} {line : List Char} {result : LineResult} :
    push p policy progress line = .ok (result, next) ↔
      ∃ scanned counts, p.scanLine progress.state line = .ok scanned ∧
        progress.counts.record? (progress.resultOf policy line scanned).category = .ok counts ∧
        result = progress.resultOf policy line scanned ∧
        next = progress.after policy line scanned counts := by
  simp only [push, bind_eq_ok_iff]
  constructor
  · rintro ⟨scanned, hscan, counts, hcounts, h⟩
    cases h
    exact ⟨scanned, counts, hscan, hcounts, rfl, rfl⟩
  · rintro ⟨scanned, counts, hscan, hcounts, rfl, rfl⟩
    exact ⟨scanned, hscan, counts, hcounts, rfl⟩

/-- The lines of a file pushed one after the other, with the result and the scan of each. -/
inductive Pushes (p : Profile) (policy : HeaderPolicy) : Progress → List (List Char) →
    List LineResult → List ScannedLine → Progress → Prop where
  | nil {progress : Progress} : Pushes p policy progress [] [] [] progress
  | cons {progress last : Progress} {line : List Char} {lines : List (List Char)}
      {results : List LineResult} {scanned : ScannedLine} {scans : List ScannedLine}
      {counts : Counts} : p.scanLine progress.state line = .ok scanned →
      progress.counts.record? (progress.resultOf policy line scanned).category = .ok counts →
      Pushes p policy (progress.after policy line scanned counts) lines results scans last →
      Pushes p policy progress (line :: lines)
        (progress.resultOf policy line scanned :: results) (scanned :: scans) last

/-- The successful runs are the derivations. -/
theorem pushAll_eq_ok_iff :
    pushAll p policy progress lines = .ok (results, last) ↔
      ∃ scans, Pushes p policy progress lines results scans last := by
  induction lines generalizing progress results with
  | nil =>
    constructor
    · intro h; cases h; exact ⟨[], .nil⟩
    · rintro ⟨scans, h⟩; cases h; rfl
  | cons line lines ih =>
    simp only [pushAll, bind_eq_ok_iff, Prod.exists]
    constructor
    · rintro ⟨result, next, hpush, more, last', hmore, h⟩
      cases h
      obtain ⟨scanned, counts, hscan, hcounts, rfl, rfl⟩ := push_eq_ok_iff.1 hpush
      obtain ⟨scans, hscans⟩ := ih.1 hmore
      exact ⟨scanned :: scans, .cons hscan hcounts hscans⟩
    · rintro ⟨_, h⟩
      cases h with
      | cons hscan hcounts hmore =>
        exact ⟨_, _, push_eq_ok_iff.2 ⟨_, _, hscan, hcounts, rfl, rfl⟩, _, _, ih.2 ⟨_, hmore⟩, rfl⟩

/-- The scans beside the results are those of the lines by themselves. -/
theorem Pushes.scanLines (h : Pushes p policy progress lines results scans last) :
    p.scanLines progress.state lines = .ok (scans, last.state) := by
  induction h with
  | nil => rfl
  | cons hscan _ _ ih => exact Profile.scanLines_cons_eq_ok_iff.2 ⟨_, _, hscan, ih, rfl⟩

/-- The lines are counted on from the lines so far. -/
theorem Pushes.lines_eq (h : Pushes p policy progress lines results scans last) :
    last.lines = progress.lines + lines.length := by
  induction h with
  | nil => rfl
  | cons _ _ _ ih =>
    rw [ih, List.length_cons]
    simp only [after]
    omega

/-- The results are numbered on from the lines so far. -/
theorem Pushes.numbers (h : Pushes p policy progress lines results scans last) :
    results.map (·.line) = List.range' (progress.lines + 1) lines.length := by
  induction h with
  | nil => rfl
  | cons _ _ _ ih =>
    rw [List.map_cons, ih, List.length_cons, List.range'_succ]
    rfl

/-- Every line has its result. -/
theorem Pushes.length_results (h : Pushes p policy progress lines results scans last) :
    results.length = lines.length := by
  have hlength := congrArg List.length h.numbers
  rwa [List.length_map, List.length_range'] at hlength

/-- Each line is pushed from the progress that the lines before it made. -/
theorem Pushes.getElem?_eq (h : Pushes p policy progress lines results scans last) {i : Nat}
    {line : List Char} (hline : lines[i]? = some line) :
    ∃ (before : Progress) (scanned : ScannedLine) (counts : Counts),
      before.lines = progress.lines + i ∧ scans[i]? = some scanned ∧
      results[i]? = some (before.resultOf policy line scanned) ∧
      Pushes p policy progress (lines.take (i + 1)) (results.take (i + 1)) (scans.take (i + 1))
        (before.after policy line scanned counts) := by
  induction h generalizing i with
  | nil => cases hline
  | @cons progress _ first _ _ scanned _ counts hscan hrecord _ ih =>
    cases i with
    | zero =>
      cases hline
      exact ⟨progress, scanned, counts, rfl, rfl, rfl, .cons hscan hrecord .nil⟩
    | succ i =>
      obtain ⟨before, scanned', counts', hlines, hget, hresult, hpushes⟩ := ih hline
      refine ⟨before, scanned', counts', ?_, hget, hresult, .cons hscan hrecord hpushes⟩
      rw [hlines, after, Nat.add_assoc, Nat.add_comm 1 i]

/-- Lines that can be scanned are pushed to the end, as long as their number fits. -/
theorem exists_pushes_of_scanLines {n : Nat} {state : ScanState}
    (few : n + lines.length ≤ maxCount) (hcounts : progress.counts.AtMost n)
    (h : p.scanLines progress.state lines = .ok (scans, state)) :
    ∃ results last, Pushes p policy progress lines results scans last := by
  induction lines generalizing n progress scans with
  | nil =>
    obtain ⟨rfl, -⟩ := Profile.scanLines_nil_eq_ok_iff.1 h
    exact ⟨[], progress, .nil⟩
  | cons line lines ih =>
    obtain ⟨scanned, more, hscan, hmore, rfl⟩ := Profile.scanLines_cons_eq_ok_iff.1 h
    rw [List.length_cons] at few
    obtain ⟨counts, hrecord, hcounts'⟩ := hcounts.record? (by omega)
      (progress.resultOf policy line scanned).category
    have ⟨results, last, hpushes⟩ :
        ∃ results last, Pushes p policy (progress.after policy line scanned counts) lines
          results more last :=
      ih (n := n + 1) (by omega) hcounts' hmore
    exact ⟨_, last, .cons hscan hrecord hpushes⟩

/-- Fewer than 2³² lines of fewer than 2³² bytes in all are pushed to the end. -/
theorem exists_pushes (valid : p.Valid) (policy : HeaderPolicy) (few : lines.length < 2 ^ 32)
    (short : Text.totalBytes lines < 2 ^ 32) :
    ∃ results scans last, Pushes p policy (.start policy) lines results scans last := by
  have start : ScanState.Sound p 0 .normal := .normal
  obtain ⟨scans, state, hscans⟩ := Profile.exists_scanLines valid start (by rwa [Nat.zero_add])
  have hzero : Counts.AtMost 0 {} := by constructor <;> exact Nat.le_refl 0
  have ⟨results, last, hpushes⟩ :
      ∃ results last, Pushes p policy (.start policy) lines results scans last :=
    exists_pushes_of_scanLines (by unfold maxCount; omega) hzero hscans
  exact ⟨results, scans, last, hpushes⟩

end Progress

end SourceTally
