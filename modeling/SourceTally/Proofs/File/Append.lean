import SourceTally.Proofs.Counts
import SourceTally.Proofs.File.Plain

/-!
# Files in two parts

A file can be cut behind any line at which nothing is open and no header can follow any more. The
report on the whole is then made from the reports on the two parts: the counts add up, and the
warnings of the second part follow those of the first with their lines counted on
(`Profile.classifyLines_append`). The second part is classified without headers.

Of what the progress carries across the cut, the scan state is that of a new file, the phase is
`done` for good (`Progress.Pushes.phase_of_code`), and no line is kept for what is open
(`Progress.Tracks.known_eq_none`). The rest only adds to what a new file would begin with: the
lines, the counts and the warnings so far. `Progress.Behind` says that one progress is another
behind a first part, and every line keeps it that way (`Progress.Behind.after`).
-/

namespace SourceTally

/-- The warning about the line that is `n` lines further down. -/
def Warning.shift (n : Nat) : Warning → Warning
  | .unterminatedString line => .unterminatedString (line + n)
  | .unterminatedBlock line => .unterminatedBlock (line + n)

/-- A line has the same warning `n` lines further down, but for its number. -/
theorem ScannedLine.warning_add (line : ScannedLine) (number n : Nat) :
    line.warning (number + n) = (line.warning number).map (·.shift n) := by
  unfold warning
  split <;> rfl

namespace HeaderPolicy

variable {policy : HeaderPolicy} {phase : HeaderPhase} {number : Nat} {text : List Char}
  {line : ScannedLine}

/-- The lines leave no room for a header behind them: there are no headers, or one of the lines is
code and is not the first line passed over for its `#!`. -/
def SettledBy (policy : HeaderPolicy) (lines : List (List Char)) (results : List LineResult) :
    Prop :=
  policy.enabled = false ∨ ∃ i line result, lines[i]? = some line ∧ results[i]? = some result ∧
    result.category = .code ∧ ¬ (i = 0 ∧ policy.allowShebang = true ∧ ['#', '!'] <+: line)

/-- A line of code ends the search and the header, unless it is passed over for its `#!`. -/
theorem phase_of_code (hcode : (policy.advance phase number text line).1 = .code)
    (hexempt : ¬ (number = 1 ∧ policy.allowShebang = true ∧ ['#', '!'] <+: text)) :
    (policy.advance phase number text line).2 = .done := by
  have hcategory : line.category = .code := by
    rw [← policy.plain_advance phase number text line, hcode]
    rfl
  cases phase with
  | done => rw [advance_done]
  | inside => simp only [advance, hcategory]
  | searching =>
    have hpass : ¬ policy.PassesOver number text line := by
      rintro (⟨hblank, -⟩ | hshebang)
      · cases hcategory.symm.trans hblank
      · exact hexempt hshebang
    rcases advance_of_not_passesOver hpass with ⟨hbegins, -⟩ | ⟨-, hadvance⟩
    · cases hcategory.symm.trans hbegins.1
    · rw [hadvance]

end HeaderPolicy

namespace Progress

variable {p : Profile} {policy policy' : HeaderPolicy} {progress mid last last' base a b : Progress}
  {lines more : List (List Char)} {results results' : List LineResult}
  {scans scans' : List ScannedLine}

/-! ## What is carried across the cut -/

/-- Lines in two parts are pushed one part after the other. -/
theorem Pushes.split (h : Pushes p policy progress (lines ++ more) results scans last) :
    ∃ mid results₁ scans₁ results₂ scans₂, Pushes p policy progress lines results₁ scans₁ mid ∧
      Pushes p policy mid more results₂ scans₂ last := by
  induction lines generalizing progress results scans with
  | nil => exact ⟨progress, [], [], results, scans, .nil, h⟩
  | cons line lines ih =>
    cases h with
    | cons hscan hrecord hmore =>
      obtain ⟨mid, results₁, scans₁, results₂, scans₂, hfirst, hsecond⟩ := ih hmore
      exact ⟨mid, _, _, results₂, scans₂, .cons hscan hrecord hfirst, hsecond⟩

/-- Once the machine is done it stays done. -/
theorem Pushes.phase_of_done (h : Pushes p policy progress lines results scans last)
    (phase : progress.phase = .done) : last.phase = .done := by
  induction h with
  | nil => exact phase
  | cons _ _ _ ih => exact ih (by rw [after, phase, HeaderPolicy.advance_done])

/-- Behind a line of code the machine is done, unless the line was passed over for its `#!`. -/
theorem Pushes.phase_of_code (h : Pushes p policy progress lines results scans last) {i : Nat}
    {line : List Char} {result : LineResult} (hline : lines[i]? = some line)
    (hresult : results[i]? = some result) (hcode : result.category = .code)
    (hexempt : ¬ (progress.lines + i = 0 ∧ policy.allowShebang = true ∧ ['#', '!'] <+: line)) :
    last.phase = .done := by
  induction h generalizing i with
  | nil => cases hline
  | @cons progress _ _ _ _ scanned _ counts _ _ hmore ih =>
    cases i with
    | zero =>
      cases hline
      cases hresult
      refine hmore.phase_of_done (HeaderPolicy.phase_of_code hcode ?_)
      rintro ⟨hnumber, hshebang⟩
      exact hexempt ⟨Nat.succ.inj hnumber, hshebang⟩
    | succ i =>
      refine ih hline hresult ?_
      rintro ⟨hzero, -⟩
      simp only [after] at hzero
      omega

/-- A policy that is settled by the lines is done behind them. -/
theorem Pushes.phase_of_settledBy (h : Pushes p policy (.start policy) lines results scans last)
    (settled : policy.SettledBy lines results) : last.phase = .done := by
  rcases settled with hdisabled | ⟨i, line, result, hline, hresult, hcode, hexempt⟩
  · refine h.phase_of_done ?_
    simp [start, HeaderPolicy.start, hdisabled]
  · refine h.phase_of_code hline hresult hcode ?_
    rintro ⟨hzero, hshebang⟩
    exact hexempt ⟨(Nat.zero_add i).symm.trans hzero, hshebang⟩

/-- No line is kept for a construct outside of it. -/
theorem Tracks.known_eq_none {inside : ScanState → Bool} {known : Progress → Option Nat}
    (tracks : Tracks inside known) (h : Pushes p policy progress lines results scans last)
    (hstart : inside progress.state = false → known progress = none)
    (hlast : inside last.state = false) : known last = none := by
  induction h with
  | nil => exact hstart hlast
  | @cons _ _ _ _ _ scanned _ _ _ _ _ ih =>
    refine ih (fun hnext => ?_) hlast
    have hstate : inside scanned.state = false := hnext
    rw [tracks.after, hstate]
    rfl

/-! ## Progress behind a first part -/

/-- `b` is `a` behind the lines of `base`: neither has a header before it any more, and what `base`
has added up comes on top. -/
structure Behind (base a b : Progress) : Prop where
  lines : b.lines = a.lines + base.lines
  state : b.state = a.state
  phase : a.phase = .done
  phase' : b.phase = .done
  blockOpenedAt : b.blockOpenedAt = a.blockOpenedAt.map (· + base.lines)
  stringOpenedAt : b.stringOpenedAt = a.stringOpenedAt.map (· + base.lines)
  counts : b.counts = base.counts + a.counts
  warnings : b.warnings = a.warnings.map (·.shift base.lines) ++ base.warnings

/-- Where nothing is open and no header can follow, the progress is a new file's behind it. -/
theorem behind_start (hstate : base.state = .normal) (hphase : base.phase = .done)
    (hblock : base.blockOpenedAt = none) (hstring : base.stringOpenedAt = none) :
    Behind base (start .disabled) base where
  lines := (Nat.zero_add _).symm
  state := hstate
  phase := rfl
  phase' := hphase
  blockOpenedAt := hblock
  stringOpenedAt := hstring
  counts := rfl
  warnings := rfl

/-- The line that is kept for what is open is counted on like the lines are. -/
theorem openedAt_add (before after : Bool) (known : Option Nat) (number n : Nat) :
    openedAt before after (known.map (· + n)) (number + n) =
      (openedAt before after known number).map (· + n) := by
  cases before <;> cases after <;> cases known <;> rfl

/-- A line is pushed behind a first part as it is in a new file. -/
theorem Behind.after (h : Behind base a b) {line : List Char} {scanned : ScannedLine}
    {counts counts' : Counts}
    (hrecord : a.counts.record? (a.resultOf policy line scanned).category = .ok counts)
    (hrecord' : b.counts.record? (b.resultOf policy' line scanned).category = .ok counts') :
    Behind base (a.after policy line scanned counts) (b.after policy' line scanned counts') := by
  have hnumber : b.lines + 1 = a.lines + 1 + base.lines := by
    rw [h.lines]
    omega
  have hcategory : (a.resultOf policy line scanned).category = scanned.category := by
    rw [resultOf, h.phase, HeaderPolicy.advance_done]
  have hcategory' : (b.resultOf policy' line scanned).category = scanned.category := by
    rw [resultOf, h.phase', HeaderPolicy.advance_done]
  have hwarning := scanned.warning_add (a.lines + 1) base.lines
  rw [hcategory] at hrecord
  rw [hcategory'] at hrecord'
  exact
    { lines := hnumber
      state := rfl
      phase := by rw [Progress.after, h.phase, HeaderPolicy.advance_done]
      phase' := by rw [Progress.after, h.phase', HeaderPolicy.advance_done]
      blockOpenedAt := by
        simp only [Progress.after, hnumber, h.state, h.blockOpenedAt, openedAt_add]
      stringOpenedAt := by
        simp only [Progress.after, hnumber, h.state, h.stringOpenedAt, openedAt_add]
      counts := by
        simp only [Progress.after, Counts.eq_of_record? hrecord, Counts.eq_of_record? hrecord',
          h.counts, Counts.add_assoc]
      warnings := by
        simp only [Progress.after, hnumber, h.warnings, hwarning]
        cases scanned.warning (a.lines + 1) <;> rfl }

/-- Lines are pushed behind a first part as they are in a new file. -/
theorem Pushes.behind (h : Pushes p policy a lines results scans last)
    (h' : Pushes p policy' b lines results' scans' last') (start : Behind base a b) :
    Behind base last last' := by
  induction h generalizing b results' scans' with
  | nil =>
    cases h'
    exact start
  | cons hscan hrecord _ ih =>
    cases h' with
    | cons hscan' hrecord' hmore' =>
      rw [start.state, hscan] at hscan'
      cases hscan'
      exact ih hmore' (start.after hrecord hrecord')

/-- What is open behind a first part gives the warning of a new file, further down. -/
theorem Behind.openWarning (h : Behind base a b) :
    b.openWarning = a.openWarning.map (·.shift base.lines) := by
  have hknown : ∀ known : Option Nat,
      (known.map (· + base.lines)).getD b.lines = known.getD a.lines + base.lines := by
    intro known
    cases known with
    | none => exact h.lines
    | some n => rfl
  unfold Progress.openWarning
  rw [h.state, h.blockOpenedAt, h.stringOpenedAt, hknown, hknown]
  cases a.state with
  | normal | inBlock | inString => rfl

/-- The warnings of the first part come first, then those of a new file, further down. -/
theorem Behind.warnings_finish (h : Behind base a b) (hstate : base.state = .normal) :
    b.finish.warnings = base.finish.warnings ++ a.finish.warnings.map (·.shift base.lines) := by
  have hbase : base.openWarning = none := by rw [Progress.openWarning, hstate]
  simp only [finish, h.warnings, h.openWarning, hbase, Option.toList_none, List.append_nil,
    List.reverse_append, List.map_append, List.map_reverse, List.append_assoc]
  cases a.openWarning <;> rfl

/-- The counts of a whole file fit, since none is greater than the number of its lines. -/
theorem Pushes.fits (h : Pushes p policy (.start policy) lines results scans last)
    (few : lines.length < 2 ^ 32) : last.counts.fits = true := by
  have hle : ∀ category, last.counts.get category ≤ lines.length := by
    intro category
    rw [h.get_counts_of_start, ← h.length_results, ← List.length_map (·.category)]
    exact List.count_le_length
  have hblank : last.counts.blank ≤ lines.length := hle .blank
  have hcode : last.counts.code ≤ lines.length := hle .code
  have hcomment : last.counts.comment ≤ lines.length := hle .comment
  have hheader : last.counts.header ≤ lines.length := hle .header
  have htotal := h.total_counts_of_start
  have hmax : 2 ^ 32 ≤ maxCount := by decide
  simp only [Counts.fits, Bool.and_eq_true, decide_eq_true_eq]
  omega

end Progress

namespace Profile

/-- A file in two parts. When nothing is open behind the first part and no header can follow, the
counts of the whole file are the sum of the counts of the parts, and its warnings are those of the
first part and then those of the second, counted on from the lines of the first. -/
theorem classifyLines_append (p : Profile) (policy : HeaderPolicy) (lines more : List (List Char))
    (valid : p.Valid) (few : (lines ++ more).length < 2 ^ 32)
    (short : Text.totalBytes (lines ++ more) < 2 ^ 32) :
    ∃ results progress,
      Progress.pushAll p policy (.start policy) lines = .ok (results, progress) ∧
      (progress.state = .normal → policy.SettledBy lines results →
        ∃ first second whole, p.classifyLines policy lines = .ok first ∧
          p.classifyLines .disabled more = .ok second ∧
          p.classifyLines policy (lines ++ more) = .ok whole ∧
          first.counts.add? second.counts = .ok whole.counts ∧
          whole.warnings = first.warnings ++ second.warnings.map (·.shift lines.length)) := by
  obtain ⟨_, _, last, hwhole⟩ := Progress.exists_pushes valid policy few short
  obtain ⟨mid, results, scans, _, _, hfirst, hrest⟩ := hwhole.split
  refine ⟨results, mid, Progress.pushAll_eq_ok_iff.2 ⟨scans, hfirst⟩, ?_⟩
  intro hstate hsettled
  have hbytes : Text.totalBytes more ≤ Text.totalBytes (lines ++ more) := by
    simp [Text.totalBytes]
  rw [List.length_append] at few
  obtain ⟨_, _, last', hsecond⟩ := Progress.exists_pushes valid .disabled
    (show more.length < 2 ^ 32 by omega) (Nat.lt_of_le_of_lt hbytes short)
  have hblock : mid.blockOpenedAt = none :=
    Progress.tracks_block.known_eq_none hfirst (fun _ => rfl) (by rw [hstate]; rfl)
  have hstring : mid.stringOpenedAt = none :=
    Progress.tracks_string.known_eq_none hfirst (fun _ => rfl) (by rw [hstate]; rfl)
  have hbehind := hsecond.behind hrest
    (Progress.behind_start hstate (hfirst.phase_of_settledBy hsettled) hblock hstring)
  have hlines : mid.lines = lines.length := by
    rw [hfirst.lines_eq]
    exact Nat.zero_add _
  refine ⟨_, _, _, classifyLines_of_pushes hfirst, classifyLines_of_pushes hsecond,
    classifyLines_of_pushes hwhole, ?_, ?_⟩
  · have hfits := hwhole.fits (by rw [List.length_append]; exact few)
    rw [hbehind.counts] at hfits
    simp only [Progress.finish, Counts.add?, hfits, if_true, hbehind.counts]
  · rw [hbehind.warnings_finish hstate, hlines]

/-- The cut is behind a line of code that is not the first; the second part gives up a string and
leaves a comment open that a new file would take for its header. -/
theorem classifyLines_append_header :
    singleLine.Valid ∧ ∃ (results : List LineResult) (progress : Progress),
      Progress.pushAll singleLine {} (.start {}) ["#!x".toList, "(* a *)".toList, "y".toList] =
        .ok (results, progress) ∧
      progress.state = .normal ∧
      ({} : HeaderPolicy).SettledBy ["#!x".toList, "(* a *)".toList, "y".toList] results ∧
      ∃ first second whole,
        singleLine.classifyLines {} ["#!x".toList, "(* a *)".toList, "y".toList] = .ok first ∧
        singleLine.classifyLines .disabled ["\"b".toList, "(* c".toList] = .ok second ∧
        singleLine.classifyLines {} ["#!x".toList, "(* a *)".toList, "y".toList, "\"b".toList,
          "(* c".toList] = .ok whole ∧
        first.counts.add? second.counts = .ok whole.counts ∧
        second.warnings = [.unterminatedString 1, .unterminatedBlock 2] ∧
        whole.warnings = first.warnings ++ [.unterminatedString 4, .unterminatedBlock 5] := by
  obtain ⟨results, progress, hpush, happend⟩ := classifyLines_append singleLine {}
    ["#!x".toList, "(* a *)".toList, "y".toList] ["\"b".toList, "(* c".toList] singleLine_valid
    (by decide) (by decide)
  have hrun : (Progress.pushAll singleLine {} (.start {})
      ["#!x".toList, "(* a *)".toList, "y".toList]).map (fun x => (x.1, x.2.state)) =
      .ok ([⟨1, .code, none⟩, ⟨2, .header, none⟩, ⟨3, .code, none⟩], .normal) := by cbv
  rw [hpush] at hrun
  simp only [Except.map, Except.ok.injEq, Prod.mk.injEq] at hrun
  obtain ⟨rfl, hstate⟩ := hrun
  have hsettled : ({} : HeaderPolicy).SettledBy ["#!x".toList, "(* a *)".toList, "y".toList]
      [⟨1, .code, none⟩, ⟨2, .header, none⟩, ⟨3, .code, none⟩] :=
    .inr ⟨2, _, _, rfl, rfl, rfl, fun h => absurd h.1 (by decide)⟩
  obtain ⟨first, second, whole, hfirst, hsecond, hwhole, hcounts, hwarnings⟩ :=
    happend hstate hsettled
  have hboth : (singleLine.classifyLines .disabled ["\"b".toList, "(* c".toList]).map
      (·.warnings) = .ok [.unterminatedString 1, .unterminatedBlock 2] := by cbv
  rw [hsecond] at hboth
  have hboth : second.warnings = [.unterminatedString 1, .unterminatedBlock 2] :=
    Except.ok.inj hboth
  refine ⟨singleLine_valid, _, progress, hpush, hstate, hsettled, first, second, whole, hfirst,
    hsecond, hwhole, hcounts, hboth, ?_⟩
  rw [hwarnings, hboth]
  rfl

end Profile

end SourceTally
