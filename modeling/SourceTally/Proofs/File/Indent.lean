import SourceTally.Proofs.File.Header
import SourceTally.Proofs.File.Report

/-!
# Indentation

White space in front of the lines of a file changes nothing in the report on it, when no delimiter
begins with white space and no escape is white space (`Profile.IgnoresSpace`); only a first line
that begins with `#!` has to stay as it is (`Profile.classifyLines_indented`).

White space is inert for such a profile, so it is painted with the kind of what is open in front of
the line and the rest of the line is scanned as before (`Profile.scanLine_indent`). Whatever that
kind is, the category of the line stays (`Profile.category_indent`), and so does the answer to
whether a comment line begins with a block comment (`Profile.beginsWithBlock_indent`). Nothing else
that the header policy looks at can change, and so every push gives the same result and the same
progress (`Progress.push_indent`).
-/

namespace SourceTally

/-- The second line is the first with white space in front of it. -/
def Text.Indented (line line' : List Char) : Prop :=
  ∃ indent, isBlank indent = true ∧ line' = indent ++ line

/-- The scanned line with an indentation of the given kind in front of it. -/
def ScannedLine.indent (scanned : ScannedLine) (indent : List Char) (kind : Kind) : ScannedLine :=
  { scanned with painted := indent.map (·, kind) ++ scanned.painted }

namespace Profile

variable {p : Profile} {state : ScanState} {line indent : List Char} {scanned : ScannedLine}

/-- No delimiter begins with white space, and no escape is white space. -/
structure IgnoresSpace (p : Profile) : Prop where
  delimiters : ∀ token ∈ p.delimiters, ∀ c ∈ token.head?, Text.isSpace c = false
  escapes : ∀ c ∈ p.escapes, Text.isSpace c = false

/-! ## Scans of indented lines -/

/-- White space is inert. -/
theorem IgnoresSpace.inert (ignores : p.IgnoresSpace) {c : Char} (hc : Text.isSpace c = true) :
    p.Inert c where
  begins_none token htoken hhead := by
    have := ignores.delimiters token htoken c hhead
    rw [hc] at this
    cases this
  not_escape hescape := by
    have := ignores.escapes c hescape
    rw [hc] at this
    cases this

/-- A run takes an indentation as a part of what is open, and goes on as without it. -/
theorem run_indent (valid : p.Valid) (ignores : p.IgnoresSpace) (range : state.InRange p)
    (settled : state.Settled) (hblank : Text.isBlank indent = true) (line : List Char) :
    p.run state (indent ++ line) = (p.run state line).map fun r =>
      { r with painted := indent.map (·, state.kind) ++ r.painted } := by
  induction indent with
  | nil => cases h : p.run state line <;> simp [h, Except.map]
  | cons c indent ih =>
    rw [Text.isBlank_cons, Bool.and_eq_true] at hblank
    have hmoves := moves_of_inert valid (ignores.inert hblank.1) range (indent ++ line)
    rw [ScanState.settle_eq_of_settled settled] at hmoves
    rw [List.cons_append, run, hmoves.step_eq]
    simp only [Nat.sub_self, List.drop_zero, List.take_zero, ih hblank.2]
    cases p.run state line <;> simp [Except.map]

/-- An indented line is scanned like the line without its indentation. -/
theorem scanLine_indent (valid : p.Valid) (ignores : p.IgnoresSpace) (range : state.InRange p)
    (settled : state.Settled) (hblank : Text.isBlank indent = true) (line : List Char) :
    p.scanLine state (indent ++ line) =
      (p.scanLine state line).map (·.indent indent state.kind) := by
  unfold scanLine
  rw [run_indent valid ignores range settled hblank]
  cases p.run state line with
  | error fault => rfl
  | ok r =>
    simp only [Except.map, bind, Except.bind]
    cases p.endLine r.state <;> rfl

/-! ## What the policy sees of them -/

/-- White space that is not part of a string shows no code. -/
theorem any_showsCode_indent {kind : Kind} (hblank : Text.isBlank indent = true)
    (hkind : kind ≠ .string) : (indent.map (·, kind)).any Painted.showsCode = false := by
  rw [List.any_eq_false]
  intro x hx
  obtain ⟨c, hc, rfl⟩ := List.mem_map.1 hx
  have hspace := List.all_eq_true.1 hblank c hc
  cases kind with
  | code => simp [Painted.showsCode, hspace]
  | lineComment | blockComment => simp [Painted.showsCode]
  | string => exact absurd rfl hkind

/-- An indentation does not change the category of a line. Inside a string it would make a line
code, but a line that is not blank is code there already. -/
theorem category_indent (valid : p.Valid) (h : p.scanLine state line = .ok scanned)
    (hblank : Text.isBlank indent = true) :
    (scanned.indent indent state.kind).category = scanned.category := by
  have hall : (scanned.indent indent state.kind).painted.all (Text.isSpace ·.1) =
      scanned.painted.all (Text.isSpace ·.1) := by
    simp only [ScannedLine.indent, List.all_append, List.all_map]
    exact (congrArg (· && _) hblank).trans (Bool.true_and _)
  have hany : scanned.painted = [] ∨ (scanned.indent indent state.kind).painted.any
      Painted.showsCode = scanned.painted.any Painted.showsCode := by
    rw [ScannedLine.indent, List.any_append]
    by_cases hkind : state.kind = .string
    · refine (painted_of_string valid h hkind).imp_right fun hshows => ?_
      rw [hshows, Bool.or_true]
    · rw [any_showsCode_indent hblank hkind, Bool.false_or]
      exact .inr rfl
  unfold ScannedLine.category Painted.category
  rw [hall]
  rcases hany with hnil | hsame
  · rw [hnil]
    rfl
  · rw [hsame]

/-- An indentation does not change whether a comment line begins with a block comment. -/
theorem beginsWithBlock_indent (valid : p.Valid) (h : p.scanLine state line = .ok scanned)
    (hblank : Text.isBlank indent = true) (hcomment : scanned.category = .comment) :
    (scanned.indent indent state.kind).beginsWithBlock = scanned.beginsWithBlock := by
  unfold ScannedLine.beginsWithBlock Painted.beginsWithBlock ScannedLine.indent
  cases state with
  | normal =>
    rw [List.dropWhile_append_of_pos]
    intro x hx
    obtain ⟨c, hc, rfl⟩ := List.mem_map.1 hx
    exact List.all_eq_true.1 hblank c hc
  | inString => exact absurd hcomment (category_ne_comment_of_inString valid h)
  | inBlock pair depth =>
    cases line with
    | nil =>
      have hnil : scanned.painted = [] := List.map_eq_nil_iff.1 (text_of_scanLine valid h)
      rw [ScannedLine.category, hnil] at hcomment
      cases hcomment
    | cons c cs =>
      -- With or without the indentation, the first character is one of the open comment.
      obtain ⟨more, hmore⟩ := exists_painted_eq_cons valid h (by simp)
      cases indent with
      | nil => rfl
      | cons d ds => simp [hmore, ScanState.kind]

end Profile

/-- An indented line begins with `#!` only if it is not indented at all. -/
theorem Text.isPrefixOf_shebang_indent {indent line : List Char} (hblank : isBlank indent = true)
    (h : ['#', '!'] <+: line → indent = []) :
    ['#', '!'].isPrefixOf (indent ++ line) = ['#', '!'].isPrefixOf line := by
  cases indent with
  | nil => rfl
  | cons c indent =>
    rw [isBlank_cons, Bool.and_eq_true] at hblank
    have hc : '#' ≠ c := by
      rintro rfl
      exact absurd hblank.1 (by decide)
    have hline : ['#', '!'].isPrefixOf line = false := by
      rw [Bool.eq_false_iff, ne_eq, List.isPrefixOf_iff_prefix]
      exact fun hshebang => nomatch h hshebang
    rw [hline, List.cons_append, List.isPrefixOf_cons_cons, beq_false_of_ne hc, Bool.false_and]

/-! ## Files -/

namespace Progress

variable {p : Profile} {policy : HeaderPolicy} {progress : Progress} {line indent : List Char}
  {lines lines' : List (List Char)}

/-- An indented line is pushed like the line without its indentation. -/
theorem push_indent (valid : p.Valid) (ignores : p.IgnoresSpace)
    (range : progress.state.InRange p) (settled : progress.state.Settled)
    (hblank : Text.isBlank indent = true)
    (hfirst : progress.lines = 0 → ['#', '!'] <+: line → indent = []) :
    push p policy progress (indent ++ line) = push p policy progress line := by
  unfold push
  rw [Profile.scanLine_indent valid ignores range settled hblank]
  cases hscan : p.scanLine progress.state line with
  | error fault => rfl
  | ok scanned =>
    have hadvance : policy.advance progress.phase (progress.lines + 1) (indent ++ line)
        (scanned.indent indent progress.state.kind) =
        policy.advance progress.phase (progress.lines + 1) line scanned := by
      refine HeaderPolicy.advance_congr (Profile.category_indent valid hscan hblank) rfl rfl
        (Profile.beginsWithBlock_indent valid hscan hblank) fun hnumber => ?_
      exact Text.isPrefixOf_shebang_indent hblank (hfirst (Nat.succ.inj hnumber))
    simp only [Except.map, bind, Except.bind, hadvance]
    rfl

/-- Indented lines are pushed like the lines without their indentation. -/
theorem pushAll_indent (valid : p.Valid) (ignores : p.IgnoresSpace)
    (range : progress.state.InRange p) (settled : progress.state.Settled)
    (indented : List.Forall₂ Text.Indented lines lines')
    (hfirst : progress.lines = 0 → ∀ line, lines.head? = some line → ['#', '!'] <+: line →
      lines'.head? = some line) :
    pushAll p policy progress lines' = pushAll p policy progress lines := by
  induction indented generalizing progress with
  | nil => rfl
  | @cons line line' lines lines' hline _ ih =>
    obtain ⟨indent, hblank, rfl⟩ := hline
    have hpush : push p policy progress (indent ++ line) = push p policy progress line := by
      refine push_indent valid ignores range settled hblank fun hzero hshebang => ?_
      have hsame := hfirst hzero line rfl hshebang
      exact List.append_left_eq_self.1 (Option.some.inj hsame)
    rw [pushAll, pushAll, hpush]
    cases hnext : push p policy progress line with
    | error fault => rfl
    | ok found =>
      obtain ⟨result, next⟩ := found
      obtain ⟨scanned, counts, hscan, -, -, rfl⟩ := push_eq_ok_iff.1 hnext
      have hmore : pushAll p policy (progress.after policy line scanned counts) lines' =
          pushAll p policy (progress.after policy line scanned counts) lines :=
        ih (Profile.inRange_of_scanLine valid hscan range)
          (Profile.settled_of_scanLine valid hscan) fun hzero => absurd hzero (Nat.succ_ne_zero _)
      simp only [bind, Except.bind, hmore]

end Progress

namespace Profile

/-- White space in front of the lines changes nothing in the report on a file, whatever the policy,
for every profile that ignores white space. A first line that begins with `#!` has to stay. -/
theorem classifyLines_indented (p : Profile) (policy : HeaderPolicy)
    (lines lines' : List (List Char)) (valid : p.Valid) (ignores : p.IgnoresSpace)
    (indented : List.Forall₂ Text.Indented lines lines')
    (shebang : ∀ line, lines.head? = some line → ['#', '!'] <+: line → lines'.head? = some line)
    (few : lines.length < 2 ^ 32) (short : Text.totalBytes lines < 2 ^ 32) :
    ∃ report, p.classifyLines policy lines = .ok report ∧
      p.classifyLines policy lines' = .ok report := by
  obtain ⟨results, scans, last, hpushes⟩ := Progress.exists_pushes valid policy few short
  have hreport := classifyLines_of_pushes hpushes
  refine ⟨last.finish, hreport, ?_⟩
  have hsame : Progress.pushAll p policy (.start policy) lines' =
      Progress.pushAll p policy (.start policy) lines :=
    Progress.pushAll_indent valid ignores trivial trivial indented fun _ => shebang
  rw [← hreport, classifyLines, classifyLines, hsame]

/-- A file with a header, a string over two lines and a comment that is left open. The indentation
goes into the header's comment, into the string and into the code. -/
theorem classifyLines_indented_header :
    sample.IgnoresSpace ∧ ∃ report,
      sample.classifyLines {} ["#!x".toList, "/* a".toList, "b */".toList, "\"c".toList,
        "d\" /*".toList] = .ok report ∧
      sample.classifyLines {} ["#!x".toList, "\t/* a".toList, "  b */".toList, " \"c".toList,
        "  d\" /*".toList] = .ok report ∧
      report = ⟨{ code := 3, header := 2, total := 5 }, [.unterminatedBlock 5]⟩ := by
  have ignores : sample.IgnoresSpace :=
    ⟨by simp [delimiters, sample, Text.isSpace],
      by simp [escapes, sample, Escape.char?, Text.isSpace]⟩
  have indented : List.Forall₂ Text.Indented
      ["#!x".toList, "/* a".toList, "b */".toList, "\"c".toList, "d\" /*".toList]
      ["#!x".toList, "\t/* a".toList, "  b */".toList, " \"c".toList, "  d\" /*".toList] :=
    .cons ⟨[], rfl, rfl⟩ (.cons ⟨['\t'], rfl, rfl⟩ (.cons ⟨[' ', ' '], rfl, rfl⟩
      (.cons ⟨[' '], rfl, rfl⟩ (.cons ⟨[' ', ' '], rfl, rfl⟩ .nil))))
  obtain ⟨report, hreport, hreport'⟩ := classifyLines_indented sample {}
    ["#!x".toList, "/* a".toList, "b */".toList, "\"c".toList, "d\" /*".toList] _ sample_valid
    ignores indented (fun _ hline _ => hline) (by decide) (by decide)
  have hwhole : sample.classifyLines {} ["#!x".toList, "/* a".toList, "b */".toList, "\"c".toList,
      "d\" /*".toList] =
      .ok ⟨{ code := 3, header := 2, total := 5 }, [.unterminatedBlock 5]⟩ := by cbv
  exact ⟨ignores, report, hreport, hreport', Except.ok.inj (hreport.symm.trans hwhole)⟩

end Profile

end SourceTally
