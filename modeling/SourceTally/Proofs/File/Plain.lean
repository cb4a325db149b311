import SourceTally.Proofs.File.Header
import SourceTally.Proofs.File.Report

/-!
# A header policy only renames comments

Lines can be classified without a file around them: `Profile.classifyEach` classifies each line by
itself and hands its state to the next. A file that is pushed under a policy gives the same states
and warnings, and the same categories but for the comments that become header lines
(`Category.plain`). The reason is that both are read off the same scans: the policy sees the scan of
a line and has no say in the next one.

So two policies differ only in which comments they count as header lines
(`FileReport.SameButHeader`). The progress under one and under the other agree in all but the phase
and the counts (`Progress.Agree`), and the counts agree up to the renaming.
-/

namespace SourceTally

/-! ## Lines by themselves -/

/-- The result for a line by itself, from its scan. -/
def ScannedLine.result (line : ScannedLine) (number : Nat) : LineResult :=
  ⟨number, line.category, line.warning number⟩

namespace Profile

variable {p : Profile} {state last : ScanState} {lines : List (List Char)}
  {scans : List ScannedLine}

/-- Classifies lines by themselves, numbered on from `number`, each from the state that the one
before it left behind; with the state after each. -/
def classifyEach (p : Profile) :
    ScanState → Nat → List (List Char) → Except Fault (List (LineResult × ScanState))
  | _, _, [] => return []
  | state, number, line :: lines => do
    let (result, next) ← p.classifyLine state number line
    let more ← p.classifyEach next (number + 1) lines
    return (result, next) :: more

/-- Lines that can be scanned can be classified by themselves, and the results are read off the
scans. -/
theorem classifyEach_of_scanLines (h : p.scanLines state lines = .ok (scans, last)) (number : Nat) :
    p.classifyEach state number lines =
      .ok ((scans.zipIdx number).map fun x => (x.1.result x.2, x.1.state)) := by
  induction lines generalizing state scans number with
  | nil =>
    obtain ⟨rfl, -⟩ := scanLines_nil_eq_ok_iff.1 h
    rfl
  | cons line lines ih =>
    obtain ⟨scanned, more, hline, hmore, rfl⟩ := scanLines_cons_eq_ok_iff.1 h
    have hclassify : p.classifyLine state number line =
        .ok (scanned.result number, scanned.state) := by
      rw [classifyLine, hline]
      rfl
    rw [classifyEach, hclassify]
    simp only [bind, Except.bind, ih hmore, List.zipIdx_cons, List.map_cons]
    rfl

end Profile

/-! ## The renaming -/

/-- The category of a line when header lines are not told apart from other comments. -/
def Category.plain : Category → Category
  | .header => .comment
  | category => category

/-- What is plain is the same, or a comment that was renamed. -/
theorem Category.eq_or_of_plain {category plain : Category} (h : category.plain = plain) :
    category = plain ∨ (plain = .comment ∧ category = .header) := by
  subst h
  cases category with
  | blank | code | comment => exact .inl rfl
  | header => exact .inr ⟨rfl, rfl⟩

/-- A line by itself has a plain category. -/
theorem ScannedLine.plain_category (line : ScannedLine) : line.category.plain = line.category := by
  cases hcategory : line.category with
  | blank | code | comment => rfl
  | header => exact absurd hcategory line.category_ne_header

/-- In every phase, the policy keeps the category of a line or renames a comment. -/
theorem HeaderPolicy.plain_advance (policy : HeaderPolicy) (phase : HeaderPhase) (number : Nat)
    (text : List Char) (line : ScannedLine) :
    (policy.advance phase number text line).1.plain = line.category := by
  cases phase with
  | done => rw [advance_done, line.plain_category]
  | inside =>
    unfold advance
    cases hcategory : line.category with
    | blank | code | comment => rfl
    | header => exact absurd hcategory line.category_ne_header
  | searching =>
    unfold advance
    cases hcategory : line.category with
    | blank => rfl
    | header => exact absurd hcategory line.category_ne_header
    | code =>
      simp only
      split <;> rfl
    | comment =>
      -- Passed over, the first line of the header, or the end of the search.
      simp only
      split
      · rfl
      · split <;> rfl

/-- The result is that of the line by itself, but for a comment that may be renamed to header. -/
structure LineResult.Renames (result plain : LineResult) : Prop where
  line : result.line = plain.line
  warning : result.warning = plain.warning
  category : result.category = plain.category ∨
    (plain.category = .comment ∧ result.category = .header)

/-- The reports differ at most in which comments count as header lines. -/
structure FileReport.SameButHeader (a b : FileReport) : Prop where
  warnings : a.warnings = b.warnings
  blank : a.counts.blank = b.counts.blank
  code : a.counts.code = b.counts.code
  total : a.counts.total = b.counts.total
  comment_add_header : a.counts.comment + a.counts.header = b.counts.comment + b.counts.header

namespace Progress

variable {p : Profile} {policy policy' : HeaderPolicy} {a b last last' : Progress}
  {lines : List (List Char)} {results results' : List LineResult} {scans scans' : List ScannedLine}

/-- The result of a pushed line is that of the line by itself, up to the renaming. -/
theorem renames_resultOf (policy : HeaderPolicy) (progress : Progress) (line : List Char)
    (scanned : ScannedLine) :
    (progress.resultOf policy line scanned).Renames (scanned.result (progress.lines + 1)) where
  line := rfl
  warning := rfl
  category := Category.eq_or_of_plain (policy.plain_advance _ _ _ _)

/-- Up to the renaming, the categories of the results are those of the scans. -/
theorem Pushes.map_plain (h : Pushes p policy a lines results scans last) :
    results.map (·.category.plain) = scans.map (·.category) := by
  induction h with
  | nil => rfl
  | cons _ _ _ ih =>
    rw [List.map_cons, List.map_cons, ih, resultOf, HeaderPolicy.plain_advance]

/-! ## Two policies -/

/-- The two agree in all but the phase and the counts. -/
structure Agree (a b : Progress) : Prop where
  lines : a.lines = b.lines
  state : a.state = b.state
  blockOpenedAt : a.blockOpenedAt = b.blockOpenedAt
  stringOpenedAt : a.stringOpenedAt = b.stringOpenedAt
  warnings : a.warnings = b.warnings

/-- The same scan keeps them in agreement, whatever the policies make of it. -/
theorem Agree.after (h : Agree a b) (line : List Char) (scanned : ScannedLine)
    (counts counts' : Counts) :
    Agree (a.after policy line scanned counts) (b.after policy' line scanned counts') where
  lines := by simp only [Progress.after, h.lines]
  state := rfl
  blockOpenedAt := by simp only [Progress.after, h.lines, h.state, h.blockOpenedAt]
  stringOpenedAt := by simp only [Progress.after, h.lines, h.state, h.stringOpenedAt]
  warnings := by simp only [Progress.after, h.lines, h.warnings]

/-- Lines have the same scans under both policies and keep the two in agreement. -/
theorem Pushes.agree (h : Pushes p policy a lines results scans last)
    (h' : Pushes p policy' b lines results' scans' last') (start : Agree a b) :
    scans = scans' ∧ Agree last last' := by
  induction h generalizing b results' scans' with
  | nil =>
    cases h'
    exact ⟨rfl, start⟩
  | cons hscan _ _ ih =>
    cases h' with
    | cons hscan' _ hmore' =>
      rw [start.state] at hscan
      cases hscan.symm.trans hscan'
      obtain ⟨rfl, hlast⟩ := ih hmore' (start.after _ _ _ _)
      exact ⟨rfl, hlast⟩

/-- What agrees gives the same warnings at the end. -/
theorem Agree.warnings_finish (h : Agree a b) : a.finish.warnings = b.finish.warnings := by
  simp only [finish, openWarning, h.state, h.lines, h.blockOpenedAt, h.stringOpenedAt, h.warnings]

end Progress

/-- The plain categories of lines are counted by category, header lines with the comments. -/
theorem Category.count_map_plain (categories : List Category) :
    (categories.map plain).count .blank = categories.count .blank ∧
      (categories.map plain).count .code = categories.count .code ∧
      (categories.map plain).count .comment =
        categories.count .comment + categories.count .header := by
  induction categories with
  | nil => exact ⟨rfl, rfl, rfl⟩
  | cons category categories ih =>
    obtain ⟨hblank, hcode, hcomment⟩ := ih
    cases category <;> simp [plain, hblank, hcode, hcomment] <;> omega

namespace Progress

variable {p : Profile} {policy policy' : HeaderPolicy} {last last' : Progress}
  {lines : List (List Char)} {results results' : List LineResult} {scans scans' : List ScannedLine}

/-- The counts of a file, from the scans alone. -/
theorem Pushes.counts_of_scans (h : Pushes p policy (.start policy) lines results scans last) :
    last.counts.blank = (scans.map (·.category)).count .blank ∧
      last.counts.code = (scans.map (·.category)).count .code ∧
      last.counts.total = lines.length ∧
      last.counts.comment + last.counts.header = (scans.map (·.category)).count .comment := by
  have hplain : (results.map (·.category)).map Category.plain = scans.map (·.category) := by
    rw [List.map_map]
    exact h.map_plain
  obtain ⟨hblank, hcode, hcomment⟩ := Category.count_map_plain (results.map (·.category))
  rw [hplain] at hblank hcode hcomment
  simp only [← h.get_counts_of_start] at hblank hcode hcomment
  exact ⟨hblank.symm, hcode.symm, h.total_counts_of_start, hcomment.symm⟩

/-- Under two policies the reports on a file differ at most in the header lines. -/
theorem Pushes.sameButHeader (h : Pushes p policy (.start policy) lines results scans last)
    (h' : Pushes p policy' (.start policy') lines results' scans' last') :
    last.finish.SameButHeader last'.finish := by
  obtain ⟨rfl, hagree⟩ := h.agree h' ⟨rfl, rfl, rfl, rfl, rfl⟩
  obtain ⟨hblank, hcode, htotal, hcomment⟩ := h.counts_of_scans
  obtain ⟨hblank', hcode', htotal', hcomment'⟩ := h'.counts_of_scans
  exact ⟨hagree.warnings_finish, hblank.trans hblank'.symm, hcode.trans hcode'.symm,
    htotal.trans htotal'.symm, hcomment.trans hcomment'.symm⟩

/-- A policy only renames comments, in every file. After each line the pushed file is in the state
in which the line by itself leaves the scan, and the result is that of the line by itself but for a
comment that may be a header line. So the reports under two policies differ at most in which
comments count as header lines. -/
theorem pushAll_renames_comments (p : Profile) (policy policy' : HeaderPolicy)
    (lines : List (List Char)) (valid : p.Valid) (few : lines.length < 2 ^ 32)
    (short : Text.totalBytes lines < 2 ^ 32) :
    ∃ outcomes results progress report report',
      p.classifyEach .normal 1 lines = .ok outcomes ∧ outcomes.length = lines.length ∧
      pushAll p policy (.start policy) lines = .ok (results, progress) ∧
      results.length = lines.length ∧
      (∀ i line, lines[i]? = some line → ∃ plain state result after,
        outcomes[i]? = some (plain, state) ∧ results[i]? = some result ∧
        pushAll p policy (.start policy) (lines.take (i + 1)) =
          .ok (results.take (i + 1), after) ∧
        after.state = state ∧ result.Renames plain) ∧
      p.classifyLines policy lines = .ok report ∧ p.classifyLines policy' lines = .ok report' ∧
      report.SameButHeader report' := by
  obtain ⟨results, scans, progress, hpushes⟩ := exists_pushes valid policy few short
  obtain ⟨results', scans', progress', hpushes'⟩ := exists_pushes valid policy' few short
  have hplain := Profile.classifyEach_of_scanLines hpushes.scanLines 1
  refine ⟨_, results, progress, _, _, hplain, ?_, pushAll_eq_ok_iff.2 ⟨scans, hpushes⟩,
    hpushes.length_results, fun i line hline => ?_, Profile.classifyLines_of_pushes hpushes,
    Profile.classifyLines_of_pushes hpushes', hpushes.sameButHeader hpushes'⟩
  · rw [List.length_map, List.length_zipIdx, Profile.length_of_scanLines hpushes.scanLines]
  · obtain ⟨before, scanned, counts, hlines, hget, hresult, htake⟩ := hpushes.getElem?_eq hline
    have hnumber : before.lines + 1 = 1 + i := by
      have hstart : (start policy).lines = 0 := rfl
      omega
    have hrenames := renames_resultOf policy before line scanned
    rw [hnumber] at hrenames
    refine ⟨_, _, _, _, ?_, hresult, pushAll_eq_ok_iff.2 ⟨_, htake⟩, rfl, hrenames⟩
    rw [List.getElem?_map, List.getElem?_zipIdx, hget]
    rfl

/-- Under the default policy the first two lines are header lines, and without headers they are
comments. -/
theorem pushAll_renames_comments_disabled :
    Profile.sample.Valid ∧ ∃ outcomes results progress report report',
      Profile.sample.classifyEach .normal 1
        ["/* a".toList, "*/".toList, "x".toList, "/* b".toList] = .ok outcomes ∧
      pushAll .sample {} (.start {}) ["/* a".toList, "*/".toList, "x".toList, "/* b".toList] =
        .ok (results, progress) ∧
      outcomes.map (·.1.category) = [.comment, .comment, .code, .comment] ∧
      results.map (·.category) = [.header, .header, .code, .comment] ∧
      Profile.sample.classifyLines {} ["/* a".toList, "*/".toList, "x".toList, "/* b".toList] =
        .ok report ∧
      Profile.sample.classifyLines .disabled
        ["/* a".toList, "*/".toList, "x".toList, "/* b".toList] = .ok report' ∧
      report.SameButHeader report' := by
  obtain ⟨outcomes, results, progress, report, report', hplain, -, hpush, -, -, hreport, hreport',
    hsame⟩ := pushAll_renames_comments .sample {} .disabled
      ["/* a".toList, "*/".toList, "x".toList, "/* b".toList] Profile.sample_valid (by decide)
      (by decide)
  have hcategories : (Profile.sample.classifyEach .normal 1
      ["/* a".toList, "*/".toList, "x".toList, "/* b".toList]).map (·.map (·.1.category)) =
      .ok [.comment, .comment, .code, .comment] := by cbv
  have hrenamed : (pushAll .sample {} (.start {})
      ["/* a".toList, "*/".toList, "x".toList, "/* b".toList]).map (·.1.map (·.category)) =
      .ok [.header, .header, .code, .comment] := by cbv
  rw [hplain] at hcategories
  rw [hpush] at hrenamed
  exact ⟨Profile.sample_valid, outcomes, results, progress, report, report', hplain, hpush,
    Except.ok.inj hcategories, Except.ok.inj hrenamed, hreport, hreport', hsame⟩

end Progress

end SourceTally
