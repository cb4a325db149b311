import SourceTally.Proofs.File.Push
import SourceTally.Proofs.Line

/-!
# The lines of the header

The search for the header is a machine of three phases. `HeaderPolicy.HeaderLine` says without the
machine which lines it finds: the first line that is not passed over must be one that the header can
begin with, and from it on every comment line is part of the header as long as each line before it
lets the header go on. The lines that are pushed as header lines are exactly these
(`Progress.pushAll_header_iff`).
-/

namespace SourceTally

namespace HeaderPolicy

variable {policy : HeaderPolicy}

/-! ## The header, line by line -/

/-- The search for the header passes over the line: a blank line, or a first line that begins with
`#!`, where the policy allows it. -/
def PassesOver (policy : HeaderPolicy) (number : Nat) (text : List Char) (line : ScannedLine) :
    Prop :=
  (line.category = .blank ∧ policy.allowLeadingBlankLines = true) ∨
    (number = 1 ∧ policy.allowShebang = true ∧ ['#', '!'] <+: text)

/-- The header can begin with the line. -/
def BeginsAt (policy : HeaderPolicy) (line : ScannedLine) : Prop :=
  line.category = .comment ∧
    (policy.style = .leading ∨ (policy.style = .block ∧ line.beginsWithBlock = true))

/-- The header can go on after the line. -/
def GoesOnAfter (policy : HeaderPolicy) (line : ScannedLine) : Prop :=
  match policy.style with
  | .leading =>
    line.category = .comment ∨ (line.category = .blank ∧ line.state.isInBlock = true)
  | .block =>
    line.state.isInBlock = true ∧
      (line.category = .blank ∨ (line.category = .comment ∧ line.closedBlock = false))

/-- `first` is the first of the lines that is not passed over, when `skipped` lines come before
them. -/
def IsFirst (policy : HeaderPolicy) (skipped : Nat) (lines : List (List Char))
    (scans : List ScannedLine) (first : Nat) : Prop :=
  (∃ text line, lines[first]? = some text ∧ scans[first]? = some line ∧
    ¬ policy.PassesOver (skipped + first + 1) text line) ∧
  ∀ j text line, j < first → lines[j]? = some text → scans[j]? = some line →
    policy.PassesOver (skipped + j + 1) text line

/-- Line `i` is a comment line, not before line `first`, and the header goes on after every line
from `first` up to it. -/
def Covers (policy : HeaderPolicy) (scans : List ScannedLine) (first i : Nat) : Prop :=
  first ≤ i ∧ (∃ line, scans[i]? = some line ∧ line.category = .comment) ∧
    ∀ j line, first ≤ j → j < i → scans[j]? = some line → policy.GoesOnAfter line

/-- Line `i`, counted from zero, is one that a search finds when `skipped` lines come before. -/
def Found (policy : HeaderPolicy) (skipped : Nat) (lines : List (List Char))
    (scans : List ScannedLine) (i : Nat) : Prop :=
  ∃ first line, policy.IsFirst skipped lines scans first ∧ scans[first]? = some line ∧
    policy.BeginsAt line ∧ policy.Covers scans first i

/-- Line `i`, counted from zero, is a line of the file's header. -/
def HeaderLine (policy : HeaderPolicy) (lines : List (List Char)) (scans : List ScannedLine)
    (i : Nat) : Prop :=
  policy.enabled = true ∧ policy.Found 0 lines scans i

/-! ## The first line and the others -/

section

variable {skipped i first : Nat} {text : List Char} {texts : List (List Char)}
  {line : ScannedLine} {lines : List ScannedLine}

theorem isFirst_cons_zero :
    policy.IsFirst skipped (text :: texts) (line :: lines) 0 ↔
      ¬ policy.PassesOver (skipped + 1) text line := by
  simp [IsFirst]

theorem isFirst_cons_succ :
    policy.IsFirst skipped (text :: texts) (line :: lines) (first + 1) ↔
      policy.PassesOver (skipped + 1) text line ∧
        policy.IsFirst (skipped + 1) texts lines first := by
  have hnumber : ∀ j, skipped + (j + 1) + 1 = skipped + 1 + j + 1 := by omega
  constructor
  · rintro ⟨hfirst, hbefore⟩
    refine ⟨hbefore 0 text line (Nat.succ_pos _) rfl rfl, by simpa [hnumber] using hfirst, ?_⟩
    intro j text' line' hj htext hline
    rw [← hnumber]
    exact hbefore (j + 1) text' line' (Nat.succ_lt_succ hj) (by simpa using htext)
      (by simpa using hline)
  · rintro ⟨hpass, hfirst, hbefore⟩
    refine ⟨by simpa [hnumber] using hfirst, ?_⟩
    intro j text' line' hj htext hline
    cases j with
    | zero => cases htext; cases hline; exact hpass
    | succ j =>
      rw [hnumber]
      exact hbefore j text' line' (Nat.lt_of_succ_lt_succ hj) (by simpa using htext)
        (by simpa using hline)

theorem covers_cons_zero : policy.Covers (line :: lines) 0 0 ↔ line.category = .comment := by
  simp [Covers]

theorem covers_cons_zero_succ :
    policy.Covers (line :: lines) 0 (i + 1) ↔
      policy.GoesOnAfter line ∧ policy.Covers lines 0 i := by
  constructor
  · rintro ⟨-, hcomment, hbefore⟩
    refine ⟨hbefore 0 line (Nat.le_refl 0) (Nat.succ_pos i) rfl, Nat.zero_le i,
      by simpa using hcomment, fun j line' _ hj hline => ?_⟩
    exact hbefore (j + 1) line' (Nat.zero_le _) (Nat.succ_lt_succ hj) (by simpa using hline)
  · rintro ⟨hgoes, -, hcomment, hbefore⟩
    refine ⟨Nat.zero_le _, by simpa using hcomment, fun j line' _ hj hline => ?_⟩
    cases j with
    | zero => cases hline; exact hgoes
    | succ j =>
      exact hbefore j line' (Nat.zero_le j) (Nat.lt_of_succ_lt_succ hj) (by simpa using hline)

theorem covers_cons_succ_succ :
    policy.Covers (line :: lines) (first + 1) (i + 1) ↔ policy.Covers lines first i := by
  constructor
  · rintro ⟨hle, hcomment, hbefore⟩
    refine ⟨Nat.le_of_succ_le_succ hle, by simpa using hcomment, fun j line' hj hji hline => ?_⟩
    exact hbefore (j + 1) line' (Nat.succ_le_succ hj) (Nat.succ_lt_succ hji) (by simpa using hline)
  · rintro ⟨hle, hcomment, hbefore⟩
    refine ⟨Nat.succ_le_succ hle, by simpa using hcomment, fun j line' hj hji hline => ?_⟩
    cases j with
    | zero => exact absurd hj (Nat.not_succ_le_zero first)
    | succ j =>
      exact hbefore j line' (Nat.le_of_succ_le_succ hj) (Nat.lt_of_succ_lt_succ hji)
        (by simpa using hline)

/-- A line that is passed over is not found. -/
theorem not_found_cons_zero (h : policy.PassesOver (skipped + 1) text line) :
    ¬ policy.Found skipped (text :: texts) (line :: lines) 0 := by
  rintro ⟨first, top, hfirst, -, -, hle, -⟩
  obtain rfl := Nat.le_zero.1 hle
  exact isFirst_cons_zero.1 hfirst h

/-- The search goes on behind a line that is passed over. -/
theorem found_cons_succ (h : policy.PassesOver (skipped + 1) text line) :
    policy.Found skipped (text :: texts) (line :: lines) (i + 1) ↔
      policy.Found (skipped + 1) texts lines i := by
  constructor
  · rintro ⟨first, top, hfirst, htop, hbegins, hcovers⟩
    cases first with
    | zero => exact absurd h (isFirst_cons_zero.1 hfirst)
    | succ first =>
      exact ⟨first, top, (isFirst_cons_succ.1 hfirst).2, by simpa using htop, hbegins,
        covers_cons_succ_succ.1 hcovers⟩
  · rintro ⟨first, top, hfirst, htop, hbegins, hcovers⟩
    exact ⟨first + 1, top, isFirst_cons_succ.2 ⟨h, hfirst⟩, by simpa using htop, hbegins,
      covers_cons_succ_succ.2 hcovers⟩

/-- The search ends at a line that is not passed over: the header begins there or nowhere. -/
theorem found_cons_of_not_passesOver (h : ¬ policy.PassesOver (skipped + 1) text line) :
    policy.Found skipped (text :: texts) (line :: lines) i ↔
      policy.BeginsAt line ∧ policy.Covers (line :: lines) 0 i := by
  constructor
  · rintro ⟨first, top, hfirst, htop, hbegins, hcovers⟩
    cases first with
    | zero => cases htop; exact ⟨hbegins, hcovers⟩
    | succ first => exact absurd (isFirst_cons_succ.1 hfirst).1 h
  · rintro ⟨hbegins, hcovers⟩
    exact ⟨0, line, isFirst_cons_zero.2 h, rfl, hbegins, hcovers⟩

end

/-! ## The phases -/

section

variable {number : Nat} {text : List Char} {line : ScannedLine}

/-- While searching, a line that is passed over keeps its category and the search goes on. A text
that begins with `#!` is not blank, so the two reasons to pass over a line exclude each other. -/
theorem advance_of_passesOver (hblank : line.category = .blank → ¬ ['#', '!'] <+: text)
    (h : policy.PassesOver number text line) :
    policy.advance .searching number text line = (line.category, .searching) := by
  rcases h with ⟨hcategory, hallow⟩ | ⟨rfl, hallow, hprefix⟩
  · simp [advance, hcategory, hallow]
  · cases hcategory : line.category with
    | blank => exact absurd hprefix (hblank hcategory)
    | header => exact absurd hcategory line.category_ne_header
    | code | comment =>
      simp [advance, hcategory, hallow, List.isPrefixOf_iff_prefix.2 hprefix]

/-- The search ends at a line that is not passed over: if the header can begin there the line is a
header line, and otherwise it keeps its category and there is no header. -/
theorem advance_of_not_passesOver (h : ¬ policy.PassesOver number text line) :
    (policy.BeginsAt line ∧ policy.advance .searching number text line =
      (.header, policy.afterHeaderLine line)) ∨
    (¬ policy.BeginsAt line ∧ policy.advance .searching number text line =
      (line.category, .done)) := by
  simp only [PassesOver, not_or, not_and, ← List.isPrefixOf_iff_prefix] at h
  obtain ⟨hallow, hshebang⟩ := h
  have hnot : ¬ (number == 1 && policy.allowShebang && ['#', '!'].isPrefixOf text) = true := by
    simp only [Bool.and_eq_true, beq_iff_eq]
    rintro ⟨⟨hnumber, hallow⟩, hprefix⟩
    exact hshebang hnumber hallow hprefix
  cases hcategory : line.category with
  | header => exact absurd hcategory line.category_ne_header
  | blank =>
    refine .inr ⟨fun hbegins => (nomatch hcategory.symm.trans hbegins.1), ?_⟩
    simp [advance, hcategory, hallow hcategory]
  | code =>
    refine .inr ⟨fun hbegins => (nomatch hcategory.symm.trans hbegins.1), ?_⟩
    simp only [advance, hcategory]
    rw [if_neg hnot]
    rfl
  | comment =>
    have hopens : policy.opensAt line = true ↔ policy.BeginsAt line := by
      unfold opensAt BeginsAt
      cases policy.style with
      | leading | block => simp [hcategory]
    simp only [advance, hcategory]
    rw [if_neg hnot]
    by_cases hbegins : policy.BeginsAt line
    · exact .inl ⟨hbegins, by simp [hopens.2 hbegins]⟩
    · exact .inr ⟨hbegins, by simp [mt hopens.1 hbegins]⟩

/-- Behind a header line the machine is inside the header if the header goes on, and done if not. -/
theorem afterHeaderLine_eq (hcategory : line.category = .comment) :
    (policy.GoesOnAfter line ∧ policy.afterHeaderLine line = .inside) ∨
      (¬ policy.GoesOnAfter line ∧ policy.afterHeaderLine line = .done) := by
  unfold GoesOnAfter afterHeaderLine
  cases policy.style with
  | leading => exact .inl ⟨.inl hcategory, rfl⟩
  | block => cases line.closedBlock <;> cases line.state.isInBlock <;> simp [hcategory]

/-- Inside the header exactly the comment lines become header lines, and the machine stays inside
as long as the header goes on. -/
theorem advance_inside (policy : HeaderPolicy) (number : Nat) (text : List Char)
    (line : ScannedLine) :
    ((policy.advance .inside number text line).1 = .header ↔ line.category = .comment) ∧
      ((policy.GoesOnAfter line ∧ (policy.advance .inside number text line).2 = .inside) ∨
        (¬ policy.GoesOnAfter line ∧ (policy.advance .inside number text line).2 = .done)) := by
  cases hcategory : line.category with
  | header => exact absurd hcategory line.category_ne_header
  | comment =>
    have hadvance : policy.advance .inside number text line =
        (.header, policy.afterHeaderLine line) := by simp only [advance, hcategory]
    rw [hadvance]
    exact ⟨iff_of_true rfl rfl, afterHeaderLine_eq hcategory⟩
  | code =>
    have hadvance : policy.advance .inside number text line = (.code, .done) := by
      simp only [advance, hcategory]
    rw [hadvance]
    refine ⟨iff_of_false nofun nofun, .inr ⟨?_, rfl⟩⟩
    unfold GoesOnAfter
    cases policy.style with
    | leading | block => simp [hcategory]
  | blank =>
    have hadvance : policy.advance .inside number text line =
        (.blank, if line.state.isInBlock then .inside else .done) := by
      simp only [advance, hcategory]
    rw [hadvance]
    refine ⟨iff_of_false nofun nofun, ?_⟩
    unfold GoesOnAfter
    cases policy.style with
    | leading | block => cases line.state.isInBlock <;> simp [hcategory]

/-- Once the machine is done, lines keep their categories. -/
theorem advance_done : policy.advance .done number text line = (line.category, .done) := by
  unfold advance
  cases line.category <;> rfl

/-- The policy looks only at the category of a line, at whether it closes a comment and leaves one
open, at how a comment line begins, and at the first characters of the first line. -/
theorem advance_congr {phase : HeaderPhase} {text' : List Char} {line' : ScannedLine}
    (hcategory : line'.category = line.category)
    (hstate : line'.state.isInBlock = line.state.isInBlock)
    (hclosed : line'.closedBlock = line.closedBlock)
    (hbegins : line.category = .comment → line'.beginsWithBlock = line.beginsWithBlock)
    (hshebang : number = 1 → ['#', '!'].isPrefixOf text' = ['#', '!'].isPrefixOf text) :
    policy.advance phase number text' line' = policy.advance phase number text line := by
  have hafter : policy.afterHeaderLine line' = policy.afterHeaderLine line := by
    simp only [afterHeaderLine, hclosed, hstate]
  have hopens : line.category = .comment → policy.opensAt line' = policy.opensAt line := by
    intro hcomment
    simp only [opensAt, hbegins hcomment]
  have hexempt : (number == 1 && policy.allowShebang && ['#', '!'].isPrefixOf text') =
      (number == 1 && policy.allowShebang && ['#', '!'].isPrefixOf text) := by
    by_cases hnumber : number = 1
    · rw [hshebang hnumber]
    · rw [beq_false_of_ne hnumber]
      rfl
  unfold advance
  rw [hcategory]
  cases phase with
  | done => rfl
  | inside => cases line.category <;> simp only [hafter, hstate]
  | searching =>
    cases hc : line.category with
    | blank => rfl
    | code | header => simp only [hexempt]; rfl
    | comment => simp only [hexempt, hopens hc, hafter]

end

end HeaderPolicy

namespace Progress

variable {p : Profile} {policy : HeaderPolicy} {progress last : Progress} {lines : List (List Char)}
  {results : List LineResult} {scans : List ScannedLine}

/-! ## Runs of the machine -/

/-- The result at index `i` is a header line. -/
def HeaderAt (results : List LineResult) (i : Nat) : Prop :=
  ∃ result, results[i]? = some result ∧ result.category = .header

theorem headerAt_cons_zero {result : LineResult} :
    HeaderAt (result :: results) 0 ↔ result.category = .header := by
  simp [HeaderAt]

theorem headerAt_cons_succ {result : LineResult} {i : Nat} :
    HeaderAt (result :: results) (i + 1) ↔ HeaderAt results i := by
  simp [HeaderAt]

theorem not_headerAt_nil {i : Nat} : ¬ HeaderAt [] i := by
  simp [HeaderAt]

/-- Once the machine is done there is no header line. -/
theorem Pushes.not_headerAt_of_done (h : Pushes p policy progress lines results scans last)
    (phase : progress.phase = .done) (i : Nat) : ¬ HeaderAt results i := by
  induction h generalizing i with
  | nil => exact not_headerAt_nil
  | @cons progress _ line _ _ scanned _ counts _ _ _ ih =>
    cases i with
    | zero =>
      rw [headerAt_cons_zero, resultOf, phase, HeaderPolicy.advance_done]
      exact scanned.category_ne_header
    | succ i =>
      rw [headerAt_cons_succ]
      refine ih ?_ i
      simp only [after, phase, HeaderPolicy.advance_done]

/-- Inside the header the header lines are those that the header covers. -/
theorem Pushes.headerAt_iff_of_inside (h : Pushes p policy progress lines results scans last)
    (phase : progress.phase = .inside) (i : Nat) :
    HeaderAt results i ↔ policy.Covers scans 0 i := by
  induction h generalizing i with
  | nil =>
    exact iff_of_false not_headerAt_nil fun hcovers => by simp [HeaderPolicy.Covers] at hcovers
  | @cons progress last line lines results scanned scans counts _ _ hmore ih =>
    have ⟨hcategory, hphase⟩ := policy.advance_inside (progress.lines + 1) line scanned
    cases i with
    | zero =>
      rw [headerAt_cons_zero, HeaderPolicy.covers_cons_zero, resultOf, phase]
      exact hcategory
    | succ i =>
      rw [headerAt_cons_succ, HeaderPolicy.covers_cons_zero_succ]
      rcases hphase with ⟨hgoes, hinside⟩ | ⟨hgoes, hdone⟩
      · rw [ih (by rw [after, phase]; exact hinside) i]
        exact ⟨fun hcovers => ⟨hgoes, hcovers⟩, And.right⟩
      · have hnone := hmore.not_headerAt_of_done (by rw [after, phase]; exact hdone) i
        exact iff_of_false hnone fun hcovers => hgoes hcovers.1

/-- While searching, the header lines are those that the search finds. -/
theorem Pushes.headerAt_iff_of_searching (valid : p.Valid)
    (h : Pushes p policy progress lines results scans last) (phase : progress.phase = .searching)
    (i : Nat) : HeaderAt results i ↔ policy.Found progress.lines lines scans i := by
  induction h generalizing i with
  | nil =>
    refine iff_of_false not_headerAt_nil ?_
    rintro ⟨first, top, -, htop, -⟩
    simp at htop
  | @cons progress last line lines results scanned scans counts hscan _ hmore ih =>
    have hblank : scanned.category = .blank → ¬ ['#', '!'] <+: line := by
      intro hcategory hprefix
      obtain ⟨rest, rfl⟩ := hprefix
      have := (Profile.category_eq_blank_iff_isBlank valid hscan).1 hcategory
      simp [Text.isSpace] at this
    by_cases hpass : policy.PassesOver (progress.lines + 1) line scanned
    · have hadvance := HeaderPolicy.advance_of_passesOver hblank hpass
      cases i with
      | zero =>
        rw [headerAt_cons_zero, resultOf, phase, hadvance]
        exact iff_of_false scanned.category_ne_header (HeaderPolicy.not_found_cons_zero hpass)
      | succ i =>
        rw [headerAt_cons_succ, ih (by rw [after, phase, hadvance]) i]
        exact (HeaderPolicy.found_cons_succ hpass).symm
    · rw [HeaderPolicy.found_cons_of_not_passesOver hpass]
      rcases HeaderPolicy.advance_of_not_passesOver hpass with
        ⟨hbegins, hadvance⟩ | ⟨hbegins, hadvance⟩
      · -- The line begins the header: what follows is inside it, or the header ends with the line.
        cases i with
        | zero =>
          rw [headerAt_cons_zero, resultOf, phase, hadvance, HeaderPolicy.covers_cons_zero]
          exact iff_of_true rfl ⟨hbegins, hbegins.1⟩
        | succ i =>
          rw [headerAt_cons_succ, HeaderPolicy.covers_cons_zero_succ]
          rcases HeaderPolicy.afterHeaderLine_eq hbegins.1 with ⟨hgoes, hinside⟩ | ⟨hgoes, hdone⟩
          · rw [hmore.headerAt_iff_of_inside (by rw [after, phase, hadvance]; exact hinside)]
            exact ⟨fun hcovers => ⟨hbegins, hgoes, hcovers⟩, fun hcovers => hcovers.2.2⟩
          · have hnone := hmore.not_headerAt_of_done (by rw [after, phase, hadvance]; exact hdone) i
            exact iff_of_false hnone fun hcovers => hgoes hcovers.2.1
      · refine iff_of_false ?_ fun hcovers => hbegins hcovers.1
        cases i with
        | zero =>
          rw [headerAt_cons_zero, resultOf, phase, hadvance]
          exact scanned.category_ne_header
        | succ i =>
          rw [headerAt_cons_succ]
          exact hmore.not_headerAt_of_done (by rw [after, phase, hadvance]) i

/-- In a whole file the header lines are those of `HeaderPolicy.HeaderLine`. -/
theorem Pushes.headerAt_iff (valid : p.Valid)
    (h : Pushes p policy (.start policy) lines results scans last) (i : Nat) :
    HeaderAt results i ↔ policy.HeaderLine lines scans i := by
  unfold HeaderPolicy.HeaderLine
  cases henabled : policy.enabled with
  | true =>
    have phase : (Progress.start policy).phase = .searching := by
      simp only [start, HeaderPolicy.start, henabled, if_true]
    rw [h.headerAt_iff_of_searching valid phase i]
    exact ⟨fun hfound => ⟨rfl, hfound⟩, And.right⟩
  | false =>
    have phase : (Progress.start policy).phase = .done := by
      simp [start, HeaderPolicy.start, henabled]
    exact iff_of_false (h.not_headerAt_of_done phase i) nofun

/-- Every file is pushed to the end, one numbered result for each line, and its header lines are
those of `HeaderPolicy.HeaderLine`, whatever the profile, the policy and the lines. -/
theorem pushAll_header_iff (p : Profile) (policy : HeaderPolicy) (lines : List (List Char))
    (valid : p.Valid) (few : lines.length < 2 ^ 32) (short : Text.totalBytes lines < 2 ^ 32) :
    ∃ scans state results progress,
      p.scanLines .normal lines = .ok (scans, state) ∧
      pushAll p policy (.start policy) lines = .ok (results, progress) ∧
      results.map (·.line) = List.range' 1 lines.length ∧
      ∀ i, (∃ result, results[i]? = some result ∧ result.category = .header) ↔
        policy.HeaderLine lines scans i := by
  obtain ⟨results, scans, progress, hpushes⟩ := exists_pushes valid policy few short
  exact ⟨scans, progress.state, results, progress, hpushes.scanLines,
    pushAll_eq_ok_iff.2 ⟨scans, hpushes⟩, hpushes.numbers, hpushes.headerAt_iff valid⟩

/-- A file with a first line that begins with `#!`, a blank line in front of the header and one
inside it, and a line that closes the header's comment and opens another. The header has the lines
that the first comment is on. -/
theorem pushAll_header_shebang :
    Profile.sample.Valid ∧ ∃ scans state results progress,
      Profile.sample.scanLines .normal ["#!x".toList, [], "/* a".toList, [], "*/ /* b".toList,
        "*/".toList] = .ok (scans, state) ∧
      pushAll .sample {} (.start {}) ["#!x".toList, [], "/* a".toList, [], "*/ /* b".toList,
        "*/".toList] = .ok (results, progress) ∧
      results.map LineResult.category = [.code, .blank, .header, .blank, .header, .comment] ∧
      ∀ i, ({} : HeaderPolicy).HeaderLine ["#!x".toList, [], "/* a".toList, [], "*/ /* b".toList,
        "*/".toList] scans i ↔ i = 2 ∨ i = 4 := by
  obtain ⟨scans, state, results, progress, hscans, hpush, -, hiff⟩ := pushAll_header_iff .sample {}
    ["#!x".toList, [], "/* a".toList, [], "*/ /* b".toList, "*/".toList] Profile.sample_valid
    (by decide) (by decide)
  have hcategories : (pushAll .sample {} (.start {}) ["#!x".toList, [], "/* a".toList, [],
      "*/ /* b".toList, "*/".toList]).map (·.1.map LineResult.category) =
      .ok [.code, .blank, .header, .blank, .header, .comment] := by cbv
  rw [hpush] at hcategories
  have hcategories : results.map LineResult.category =
      [.code, .blank, .header, .blank, .header, .comment] := Except.ok.inj hcategories
  refine ⟨Profile.sample_valid, scans, state, results, progress, hscans, hpush, hcategories,
    fun i => ?_⟩
  rw [← hiff, ← Option.map_eq_some_iff, ← List.getElem?_map, hcategories]
  rcases i with _ | _ | _ | _ | _ | _ | i <;> simp

end Progress

end SourceTally
