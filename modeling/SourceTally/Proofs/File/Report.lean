import SourceTally.Proofs.Counts
import SourceTally.Proofs.File.OpenWarning
import SourceTally.Proofs.Text.Lines

/-!
# The report on a file

The report is made from what the pushes add up. Its counts are those of the results
(`Progress.Pushes.get_counts`, `Progress.Pushes.total_counts`), and its warnings are those of the
results, followed by one about what is open at the end. That no two of them are about the same line
is an invariant of the progress (`Progress.Orderly`): a line with a warning of its own leaves
nothing open, so it is never the line that is kept for a construct. `Profile.classifyFile_report`
says all of it for the text of a file.
-/

namespace SourceTally

/-! ## Counts -/

namespace Counts

/-- A line adds to the counts. -/
theorem eq_of_record? {c c' : Counts} {category : Category} (h : c.record? category = .ok c') :
    c' = c + one category := by
  unfold record? add? at h
  split at h
  · exact (Except.ok.inj h).symm
  · cases h

theorem get_add (a b : Counts) (category : Category) :
    (a + b).get category = a.get category + b.get category := by
  cases category <;> rfl

theorem total_add (a b : Counts) : (a + b).total = a.total + b.total := rfl

/-- A line counts once for its category and not for any other. -/
theorem get_one (category category' : Category) :
    (one category).get category' = if category = category' then 1 else 0 := by
  cases category <;> cases category' <;> rfl

theorem total_one (category : Category) : (one category).total = 1 := by
  cases category <;> rfl

end Counts

/-- Every line is of one of the four categories. -/
theorem Category.count_add_count (categories : List Category) :
    categories.count .blank + categories.count .code + categories.count .comment +
      categories.count .header = categories.length := by
  induction categories with
  | nil => rfl
  | cons category categories ih =>
    cases category <;> simp only [List.count_cons, List.length_cons] <;> simp <;> omega

namespace Progress

variable {p : Profile} {policy : HeaderPolicy} {progress last : Progress} {lines : List (List Char)}
  {results : List LineResult} {scans : List ScannedLine}

/-- Each category counts on by the number of results that are of it. -/
theorem Pushes.get_counts (h : Pushes p policy progress lines results scans last)
    (category : Category) :
    last.counts.get category =
      progress.counts.get category + (results.map (·.category)).count category := by
  induction h with
  | nil => rfl
  | cons _ hrecord _ ih =>
    rw [ih, List.map_cons, List.count_cons]
    simp only [after, Counts.eq_of_record? hrecord, Counts.get_add, Counts.get_one, beq_iff_eq]
    omega

/-- The total counts on by the number of results. -/
theorem Pushes.total_counts (h : Pushes p policy progress lines results scans last) :
    last.counts.total = progress.counts.total + results.length := by
  induction h with
  | nil => rfl
  | cons _ hrecord _ ih =>
    rw [ih, List.length_cons]
    simp only [after, Counts.eq_of_record? hrecord, Counts.total_add, Counts.total_one]
    omega

/-- In a whole file each category counts the results that are of it. -/
theorem Pushes.get_counts_of_start (h : Pushes p policy (.start policy) lines results scans last)
    (category : Category) :
    last.counts.get category = (results.map (·.category)).count category := by
  have hstart : (start policy).counts.get category = 0 := by cases category <;> rfl
  rw [h.get_counts, hstart, Nat.zero_add]

/-- In a whole file the total is the number of lines. -/
theorem Pushes.total_counts_of_start
    (h : Pushes p policy (.start policy) lines results scans last) :
    last.counts.total = lines.length := by
  have hstart : (start policy).counts.total = 0 := rfl
  rw [h.total_counts, hstart, Nat.zero_add, h.length_results]

/-- In a whole file the categories add up to the total. -/
theorem Pushes.addsUp (h : Pushes p policy (.start policy) lines results scans last) :
    last.counts.AddsUp := by
  have hsum := Category.count_add_count (results.map (·.category))
  rw [List.length_map, h.length_results, ← h.total_counts_of_start] at hsum
  simp only [← h.get_counts_of_start] at hsum
  exact hsum

/-! ## Warnings -/

/-- The warnings of the results come in front of those so far, the latest first. -/
theorem Pushes.warnings_eq (h : Pushes p policy progress lines results scans last) :
    last.warnings = (results.filterMap (·.warning)).reverse ++ progress.warnings := by
  induction h with
  | nil => rfl
  | @cons progress _ line _ results scanned _ _ _ _ _ ih =>
    have hfirst : (progress.resultOf policy line scanned).warning =
        scanned.warning (progress.lines + 1) := rfl
    rw [ih, List.filterMap_cons, hfirst, after]
    cases scanned.warning (progress.lines + 1) with
    | none => rfl
    | some w => simp

theorem Pushes.warnings_of_start (h : Pushes p policy (.start policy) lines results scans last) :
    last.warnings = (results.filterMap (·.warning)).reverse := by
  rw [h.warnings_eq]
  exact List.append_nil _

/-- The warnings of a file are those of its lines and the one about what is open at the end. -/
theorem Pushes.warnings_finish (h : Pushes p policy (.start policy) lines results scans last) :
    last.finish.warnings = results.filterMap (·.warning) ++ last.openWarning.toList := by
  rw [finish, h.warnings_of_start, List.reverse_reverse]

/-- Inside a tracked construct a line is known, one of the lines so far, and the warnings are about
lines before it. -/
def KnowsApart (inside : ScanState → Bool) (known : Progress → Option Nat) (progress : Progress) :
    Prop :=
  inside progress.state = true → ∃ r, known progress = some r ∧ 1 ≤ r ∧ r ≤ progress.lines ∧
    ∀ w ∈ progress.warnings, w.line < r

/-- The warnings are about lines so far, in the order of the lines, and about lines before the one
that is kept for what is open. -/
structure Orderly (progress : Progress) : Prop where
  /-- The latest warning comes first. -/
  decreasing : progress.warnings.Pairwise fun a b => b.line < a.line
  past : ∀ w ∈ progress.warnings, w.line ≤ progress.lines
  block : KnowsApart ScanState.isInBlock Progress.blockOpenedAt progress
  string : KnowsApart ScanState.isInString Progress.stringOpenedAt progress

/-- Before the first line there is neither a warning nor anything open. -/
theorem orderly_start (policy : HeaderPolicy) : (start policy).Orderly where
  decreasing := .nil
  past := nofun
  block := nofun
  string := nofun

/-- The warning of a line is about the line itself. -/
theorem line_of_warning {scanned : ScannedLine} {number : Nat} {w : Warning}
    (h : scanned.warning number = some w) : w.line = number := by
  unfold ScannedLine.warning at h
  split at h
  · cases h; rfl
  · cases h

/-- A line with a warning leaves nothing open. -/
theorem state_of_warning {state : ScanState} {line : List Char} {scanned : ScannedLine}
    {number : Nat} {w : Warning} (h : p.scanLine state line = .ok scanned)
    (hw : scanned.warning number = some w) : scanned.state = .normal := by
  simp only [Profile.scanLine, bind_eq_ok_iff, Prod.exists] at h
  obtain ⟨r, -, next, flag, hend, h⟩ := h
  cases h
  cases flag with
  | false => simp [ScannedLine.warning] at hw
  | true => exact (Profile.endLine_eq_ok_iff.1 hend).eq_normal

/-- A line keeps the line that is known behind the warnings. If it leaves a construct open it has no
warning, so the line that is known from before stays behind them, and its own number is new. -/
theorem Tracks.knowsApart_after {inside : ScanState → Bool} {known : Progress → Option Nat}
    (tracks : Tracks inside known) {line : List Char} {scanned : ScannedLine}
    (hscan : p.scanLine progress.state line = .ok scanned)
    (past : ∀ w ∈ progress.warnings, w.line ≤ progress.lines)
    (h : KnowsApart inside known progress) (counts : Counts) :
    KnowsApart inside known (progress.after policy line scanned counts) := by
  intro hnext
  have hnext : inside scanned.state = true := hnext
  have hquiet : scanned.warning (progress.lines + 1) = none := by
    cases hwarning : scanned.warning (progress.lines + 1) with
    | none => rfl
    | some w =>
      rw [state_of_warning hscan hwarning, tracks.normal] at hnext
      cases hnext
  have hwarnings : (progress.after policy line scanned counts).warnings = progress.warnings := by
    simp only [Progress.after, hquiet, Option.toList_none, List.nil_append]
  rw [hwarnings]
  refine tracks.exists_known_after hnext (fun hstate => ?_) ?_
  · obtain ⟨r, hr, hpos, hle, hapart⟩ := h hstate
    exact ⟨r, hr, hpos, Nat.le_succ_of_le hle, hapart⟩
  · refine ⟨Nat.le_add_left 1 _, Nat.le_refl _, fun w hw => ?_⟩
    exact Nat.lt_succ_of_le (past w hw)

/-- A line keeps the progress orderly. -/
theorem Orderly.after (h : progress.Orderly) {line : List Char} {scanned : ScannedLine}
    (hscan : p.scanLine progress.state line = .ok scanned) (counts : Counts) :
    (progress.after policy line scanned counts).Orderly := by
  have hblock : KnowsApart ScanState.isInBlock Progress.blockOpenedAt
      (progress.after policy line scanned counts) :=
    tracks_block.knowsApart_after hscan h.past h.block counts
  have hstring : KnowsApart ScanState.isInString Progress.stringOpenedAt
      (progress.after policy line scanned counts) :=
    tracks_string.knowsApart_after hscan h.past h.string counts
  cases hwarning : scanned.warning (progress.lines + 1) with
  | none =>
    have hsame : (progress.after policy line scanned counts).warnings = progress.warnings := by
      simp only [Progress.after, hwarning, Option.toList_none, List.nil_append]
    refine ⟨hsame ▸ h.decreasing, fun w hw => ?_, hblock, hstring⟩
    rw [hsame] at hw
    exact Nat.le_succ_of_le (h.past w hw)
  | some new =>
    have hline := line_of_warning hwarning
    have hmore : (progress.after policy line scanned counts).warnings =
        new :: progress.warnings := by
      simp only [Progress.after, hwarning, Option.toList_some, List.singleton_append]
    refine ⟨?_, fun w hw => ?_, hblock, hstring⟩
    · rw [hmore]
      refine List.pairwise_cons.2 ⟨fun w hw => ?_, h.decreasing⟩
      have hle := h.past w hw
      omega
    · rw [hmore] at hw
      rcases List.mem_cons.1 hw with rfl | hw
      · exact Nat.le_of_eq hline
      · exact Nat.le_succ_of_le (h.past w hw)

/-- Lines keep the progress orderly. -/
theorem Pushes.orderly (h : Pushes p policy progress lines results scans last)
    (ho : progress.Orderly) : last.Orderly := by
  induction h with
  | nil => exact ho
  | cons hscan _ _ ih => exact ih (ho.after hscan _)

/-- There is a warning about what is open when something is. -/
theorem openWarning_isSome_iff : progress.openWarning.isSome = true ↔ progress.state ≠ .normal := by
  cases hstate : progress.state with
  | normal => simp [openWarning, hstate]
  | inBlock | inString => simp [openWarning, hstate]

/-- The warning about what is open is about a line so far, behind those of the other warnings. -/
theorem Orderly.openWarning_line (h : progress.Orderly) {w : Warning}
    (hw : progress.openWarning = some w) :
    1 ≤ w.line ∧ w.line ≤ progress.lines ∧ ∀ w' ∈ progress.warnings, w'.line < w.line := by
  cases hstate : progress.state with
  | normal => simp [openWarning, hstate] at hw
  | inBlock pair depth =>
    obtain ⟨r, hr, hknown⟩ := h.block (by rw [hstate]; rfl)
    simp only [openWarning, hstate, hr, Option.getD_some, Option.some.injEq] at hw
    subst hw
    exact hknown
  | inString pair escaped =>
    obtain ⟨r, hr, hknown⟩ := h.string (by rw [hstate]; rfl)
    simp only [openWarning, hstate, hr, Option.getD_some, Option.some.injEq] at hw
    subst hw
    exact hknown

end Progress

/-! ## The report -/

namespace Profile

/-- The report on lines is what the pushes of the lines end with. -/
theorem classifyLines_of_pushes {p : Profile} {policy : HeaderPolicy} {lines : List (List Char)}
    {results : List LineResult} {scans : List ScannedLine} {last : Progress}
    (h : Progress.Pushes p policy (.start policy) lines results scans last) :
    p.classifyLines policy lines = .ok last.finish := by
  unfold classifyLines
  rw [Progress.pushAll_eq_ok_iff.2 ⟨scans, h⟩]
  rfl

/-- The report on every text of fewer than 2³² bytes, from the results of its lines. The counts are
the numbers of results of each category and add up to the number of lines. The warnings are those of
the results, in the order of the lines, and a last one if and only if something is open at the end;
the last one is about a line of the file that no other warning is about. -/
theorem classifyFile_report (p : Profile) (policy : HeaderPolicy) (text : List Char)
    (valid : p.Valid) (short : Text.byteLength text < 2 ^ 32) :
    ∃ results progress report,
      Progress.pushAll p policy (.start policy) (Text.lines text) = .ok (results, progress) ∧
      p.classifyFile policy text = .ok report ∧
      results.map (·.line) = List.range' 1 (Text.lines text).length ∧
      (∀ category, report.counts.get category = (results.map (·.category)).count category) ∧
      report.counts.total = (Text.lines text).length ∧
      report.counts.consistent? = .ok true ∧
      (results.filterMap (·.warning)).Pairwise (fun a b => a.line < b.line) ∧
      ∃ last : Option Warning, report.warnings = results.filterMap (·.warning) ++ last.toList ∧
        (last.isSome = true ↔ progress.state ≠ .normal) ∧
        ∀ w, last = some w → 1 ≤ w.line ∧ w.line ≤ (Text.lines text).length ∧
          ∀ w' ∈ results.filterMap (·.warning), w'.line ≠ w.line := by
  have few := Nat.lt_of_le_of_lt (Text.length_lines_le text) short
  obtain ⟨results, scans, progress, hpushes⟩ := Progress.exists_pushes valid policy few
    (Nat.lt_of_le_of_lt (Text.totalBytes_lines_le text) short)
  have hreport : p.classifyFile policy text = .ok progress.finish := classifyLines_of_pushes hpushes
  have horderly := hpushes.orderly (Progress.orderly_start policy)
  have hlines : progress.lines = (Text.lines text).length := by
    rw [hpushes.lines_eq]
    exact Nat.zero_add _
  have htotal := hpushes.total_counts_of_start
  have hwarnings := hpushes.warnings_of_start
  refine ⟨results, progress, progress.finish, Progress.pushAll_eq_ok_iff.2 ⟨scans, hpushes⟩,
    hreport, hpushes.numbers, hpushes.get_counts_of_start, htotal, ?_, ?_, progress.openWarning,
    hpushes.warnings_finish, Progress.openWarning_isSome_iff, fun w hw => ?_⟩
  · refine Counts.consistent?_eq_ok_true_iff.2 ⟨?_, hpushes.addsUp⟩
    have hfits : progress.finish.counts.total < 2 ^ 32 := htotal ▸ few
    unfold maxCount
    omega
  · have hdecreasing := horderly.decreasing
    rwa [hwarnings, List.pairwise_reverse] at hdecreasing
  · obtain ⟨hpos, hle, hapart⟩ := horderly.openWarning_line hw
    refine ⟨hpos, hlines ▸ hle, fun w' hw' => Nat.ne_of_lt (hapart w' ?_)⟩
    rw [hwarnings]
    exact List.mem_reverse.2 hw'

/-- A file with a header, a string that is given up and a comment that is left open: both warnings
are there, each about its own line. -/
theorem classifyFile_report_givenUp :
    singleLine.Valid ∧ ∃ results progress report,
      Progress.pushAll singleLine {} (.start {}) (Text.lines "(* a *)\n\"b\nx\n(* c".toList) =
        .ok (results, progress) ∧
      singleLine.classifyFile {} "(* a *)\n\"b\nx\n(* c".toList = .ok report ∧
      report.warnings = [.unterminatedString 2, .unterminatedBlock 4] ∧
      (∀ category, report.counts.get category = (results.map (·.category)).count category) ∧
      report.counts.consistent? = .ok true ∧ progress.state ≠ .normal ∧
      ∃ last, report.warnings = results.filterMap (·.warning) ++ [last] ∧
        ∀ w ∈ results.filterMap (·.warning), w.line ≠ last.line := by
  obtain ⟨results, progress, report, hpush, hreport, -, hcounts, -, hconsistent, -, last, hwarnings,
    hlast, hapart⟩ := classifyFile_report singleLine {} "(* a *)\n\"b\nx\n(* c".toList
      singleLine_valid (by decide)
  have hstate : (Progress.pushAll singleLine {} (.start {})
      (Text.lines "(* a *)\n\"b\nx\n(* c".toList)).map (·.2.state) = .ok (.inBlock 0 1) := by cbv
  have hboth : (singleLine.classifyFile {} "(* a *)\n\"b\nx\n(* c".toList).map (·.warnings) =
      .ok [.unterminatedString 2, .unterminatedBlock 4] := by cbv
  rw [hpush] at hstate
  rw [hreport] at hboth
  have hopen : progress.state ≠ .normal := by
    intro hnormal
    cases hnormal.symm.trans (Except.ok.inj hstate)
  obtain ⟨w, rfl⟩ := Option.isSome_iff_exists.1 (hlast.2 hopen)
  exact ⟨singleLine_valid, results, progress, report, hpush, hreport, Except.ok.inj hboth, hcounts,
    hconsistent, hopen, w, hwarnings, (hapart w rfl).2.2⟩

end Profile

end SourceTally
