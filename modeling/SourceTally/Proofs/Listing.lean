import SourceTally.Listing
import SourceTally.Proofs.Count.Result
import SourceTally.Proofs.File.Report

/-!
# Listings and counts

A listing and the count of the same file are made from the same pushes, and they tell the same of
the file (`Listing.Agrees`). The counts are those of the categories that are listed. The warnings
are those that stand beside the lines, each beside the line that it is about. Those of the single
lines stand there from the start, and attaching them changes nothing (`Listing.attach_eq_self`), so
that only the one about what is open at the end is put there (`Listing.foldl_attach_warnings`). It
is about a line behind those of the other warnings (`Progress.Orderly`), so that line is there and
has no warning yet (`Listing.filterMap_warned?_modify`). What becomes of a file does not depend on
whether it is listed or counted, nor does what is said of one that cannot be read
(`FileTree.listError_eq`), so that listing the files that paths lead to and counting them agree file
by file (`FileTree.list_agrees`).
-/

namespace SourceTally

/-- The number and the warning of a line that has a warning. -/
def LineResult.warned? (r : LineResult) : Option (Nat × Warning) :=
  r.warning.map (r.line, ·)

/-- The listing of a file tells the same as what is known after the file is counted. -/
structure Listing.Agrees (l : Listing) (f : FileStats) : Prop where
  path : l.path = f.path
  language : l.language = f.language
  numbers : l.results.map LineResult.line = List.range' 1 (Text.lines l.text).length
  stats : f.stats = (l.results.map fun r => Counts.one r.category).sum
  /-- Every warning stands beside the line that it is about, and no others do. -/
  warnings : l.results.filterMap LineResult.warned? = f.warnings.map fun w => (w.line, w)

/-! ## Pushes -/

namespace Progress

variable {p : Profile} {policy : HeaderPolicy} {progress last : Progress} {lines : List (List Char)}
  {results : List LineResult} {scans : List ScannedLine}

/-- The counts go up by those of the results. -/
theorem Pushes.counts_eq (h : Pushes p policy progress lines results scans last) :
    last.counts = progress.counts + (results.map fun r => Counts.one r.category).sum := by
  induction h with
  | nil => exact (add_zero _).symm
  | cons _ hrecord _ ih =>
    rw [ih, List.map_cons, List.sum_cons, ← add_assoc]
    exact congrArg (· + _) (Counts.eq_of_record? hrecord)

/-- The warning of a result is about its own line. -/
theorem Pushes.line_of_warning (h : Pushes p policy progress lines results scans last) :
    ∀ r ∈ results, ∀ w, r.warning = some w → w.line = r.line := by
  induction h with
  | nil =>
    intro r hr
    cases hr
  | cons _ _ _ ih =>
    intro r hr w hw
    rcases List.mem_cons.1 hr with rfl | hr
    · exact Progress.line_of_warning hw
    · exact ih r hr w hw

/-- The lines are numbered by where they are. -/
theorem Pushes.getElem?_line (h : Pushes p policy (.start policy) lines results scans last)
    {r : LineResult} (hr : r ∈ results) : results[r.line - 1]? = some r := by
  obtain ⟨i, hi, rfl⟩ := List.getElem_of_mem hr
  have hline : results[i].line = 1 + i := by
    have hnumber := congrArg (fun numbers => numbers[i]?) h.numbers
    simpa [hi, h.length_results ▸ hi, start] using hnumber
  rw [hline, Nat.add_sub_cancel_left]
  exact List.getElem?_eq_getElem hi

end Progress

/-! ## Attaching a warning -/

namespace Listing

variable {results : List LineResult} {w : Warning}

/-- Warnings that are about their own lines are known with the lines. -/
theorem filterMap_warned? (h : ∀ r ∈ results, ∀ w, r.warning = some w → w.line = r.line) :
    results.filterMap LineResult.warned? =
      (results.filterMap LineResult.warning).map fun w => (w.line, w) := by
  induction results with
  | nil => rfl
  | cons r results ih =>
    have ih := ih fun r' hr' => h r' (List.mem_cons_of_mem r hr')
    cases hw : r.warning with
    | none => simpa [List.filterMap_cons, LineResult.warned?, hw] using ih
    | some w =>
      have hline := h r List.mem_cons_self w hw
      simpa [List.filterMap_cons, LineResult.warned?, hw, hline] using ih

/-- A warning that is attached changes nothing but the warnings. -/
theorem map_attach {α : Type} {f : LineResult → α}
    (hf : ∀ r warning, f { r with warning := warning } = f r) (results : List LineResult)
    (w : Warning) : (attach results w).map f = results.map f := by
  refine List.ext_getElem? fun i => ?_
  rw [attach, List.getElem?_map, List.getElem?_modify, List.getElem?_map]
  cases results[i]? with
  | none => rfl
  | some r =>
    by_cases hi : w.line - 1 = i
    · simp only [if_pos hi, Option.map_eq_map, Option.map_some, hf]
    · simp only [if_neg hi, Option.map_eq_map, Option.map_some]

/-- A warning about a line that has one changes nothing. -/
theorem attach_eq_self {r : LineResult} {w' : Warning} (hr : results[w.line - 1]? = some r)
    (hw : r.warning = some w') : attach results w = results := by
  refine List.ext_getElem? fun i => ?_
  rw [attach, List.getElem?_modify]
  by_cases hi : w.line - 1 = i
  · have hsame : { r with warning := r.warning <|> some w } = r := by
      rw [hw]
      exact congrArg _ hw.symm
    rw [← hi, hr]
    exact congrArg some ((if_pos rfl).trans hsame)
  · simp [hi]

/-- So it is for any number of them. -/
theorem foldl_attach_eq_self {ws : List Warning} (h : ∀ w ∈ ws, attach results w = results) :
    ws.foldl attach results = results := by
  induction ws with
  | nil => rfl
  | cons w ws ih =>
    obtain ⟨hw, hws⟩ := List.forall_mem_cons.1 h
    rw [List.foldl_cons, hw, ih hws]

/-- Lines without warnings tell nothing. -/
theorem filterMap_warned?_eq_nil (h : ∀ r ∈ results, r.warning = none) :
    results.filterMap LineResult.warned? = [] := by
  refine List.filterMap_eq_nil_iff.2 fun r hr => ?_
  rw [LineResult.warned?, h r hr, Option.map_none]

/-- A warning that is put beside a line comes behind the others, if that line and those behind it
have none. -/
theorem filterMap_warned?_modify {first : Nat}
    (numbers : results.map LineResult.line = List.range' first results.length)
    (hfirst : first ≤ w.line) (hlast : w.line < first + results.length)
    (quiet : ∀ r ∈ results, w.line ≤ r.line → r.warning = none) :
    (results.modify (w.line - first) fun r => { r with warning := r.warning <|> some w }).filterMap
        LineResult.warned? =
      results.filterMap LineResult.warned? ++ [(w.line, w)] := by
  induction results generalizing first with
  | nil =>
    simp only [List.length_nil] at hlast
    omega
  | cons r results ih =>
    rw [List.map_cons, List.length_cons, List.range'_succ, List.cons.injEq] at numbers
    obtain ⟨rfl, numbers⟩ := numbers
    rcases Nat.eq_or_lt_of_le hfirst with heq | hlt
    · have hbehind : ∀ r' ∈ results, r'.warning = none := fun r' hr' => by
        have hline : r'.line ∈ List.range' (r.line + 1) results.length :=
          numbers ▸ List.mem_map_of_mem hr'
        have hge := (List.mem_range'_1.1 hline).1
        exact quiet r' (List.mem_cons_of_mem r hr') (by omega)
      have hnone := quiet r List.mem_cons_self (Nat.le_of_eq heq.symm)
      rw [← heq, Nat.sub_self, List.modify_zero_cons, List.filterMap_cons, List.filterMap_cons,
        filterMap_warned?_eq_nil hbehind]
      simp [LineResult.warned?, hnone]
    · have ih := ih numbers hlt (by rw [List.length_cons] at hlast; omega)
        fun r' hr' => quiet r' (List.mem_cons_of_mem r hr')
      obtain ⟨n, hn⟩ : ∃ n, w.line - r.line = n + 1 := ⟨w.line - r.line - 1, by omega⟩
      have hn' : w.line - (r.line + 1) = n := by omega
      rw [hn'] at ih
      rw [hn, List.modify_succ_cons, List.filterMap_cons, List.filterMap_cons, ih]
      cases r.warned? with
      | none => rfl
      | some warned => rfl

/-! ## One file -/

variable {policy : HeaderPolicy} {profile : Profile} {text : List Char} {report : FileReport}

/-- Of the warnings of a file only the one about what is open at the end is put on a line. -/
theorem foldl_attach_warnings {lines : List (List Char)} {results : List LineResult}
    {scans : List ScannedLine} {last : Progress}
    (h : Progress.Pushes profile policy (.start policy) lines results scans last) :
    last.finish.warnings.foldl attach results =
      last.openWarning.elim results (attach results) := by
  have hown : (results.filterMap LineResult.warning).foldl attach results = results := by
    refine foldl_attach_eq_self fun w hw => ?_
    obtain ⟨r, hr, hwarning⟩ := List.mem_filterMap.1 hw
    refine attach_eq_self ?_ hwarning
    rw [h.line_of_warning r hr w hwarning]
    exact h.getElem?_line hr
  rw [h.warnings_finish, List.foldl_append, hown]
  cases last.openWarning with
  | none | some => rfl

/-- The warnings of a report stand beside the lines of a listing that they are about. -/
theorem filterMap_warned?_of_pushes {lines : List (List Char)} {results : List LineResult}
    {scans : List ScannedLine} {last : Progress}
    (h : Progress.Pushes profile policy (.start policy) lines results scans last) :
    (last.openWarning.elim results (attach results)).filterMap LineResult.warned? =
      last.finish.warnings.map fun w => (w.line, w) := by
  have hown := filterMap_warned? h.line_of_warning
  rw [h.warnings_finish, List.map_append, ← hown]
  cases hopen : last.openWarning with
  | none => exact (List.append_nil _).symm
  | some w =>
    have horderly := h.orderly (Progress.orderly_start policy)
    obtain ⟨hpos, hle, hbefore⟩ := horderly.openWarning_line hopen
    have hlines : last.lines = results.length := by
      rw [h.lines_eq, h.length_results]
      exact Nat.zero_add _
    refine filterMap_warned?_modify ?_ hpos (by omega) fun r hr hline => ?_
    · rw [h.numbers, h.length_results]
      rfl
    · -- a warning beside this line or behind it would be about a line before the one of `w`
      cases hwarning : r.warning with
      | none => rfl
      | some w' =>
        have hmem : w' ∈ last.warnings := by
          rw [h.warnings_of_start]
          exact List.mem_reverse.2 (List.mem_filterMap.2 ⟨r, hr, hwarning⟩)
        have hlt := hbefore w' hmem
        have heq := h.line_of_warning r hr w' hwarning
        omega

/-- A text that can be classified can be listed, and the listing agrees with the report. -/
theorem exists_ofText (path : Path) (h : profile.classifyFile policy text = .ok report) :
    ∃ l, ofText policy profile path text = .ok l ∧
      l.Agrees ⟨path, profile.id, report.counts, report.warnings⟩ := by
  simp only [Profile.classifyFile, Profile.classifyLines, bind_eq_ok_iff, Prod.exists] at h
  obtain ⟨results, last, hpush, hreport⟩ := h
  obtain rfl : last.finish = report := Except.ok.inj hreport
  obtain ⟨scans, hpushes⟩ := Progress.pushAll_eq_ok_iff.1 hpush
  refine ⟨⟨path, profile.id, text, last.openWarning.elim results (attach results)⟩, ?_, rfl, rfl,
    ?_, ?_, filterMap_warned?_of_pushes hpushes⟩
  · rw [ofText, hpush, ← foldl_attach_warnings hpushes]
    rfl
  · refine Eq.trans ?_ hpushes.numbers
    cases last.openWarning with
    | none => rfl
    | some w => exact map_attach (fun _ _ => rfl) results w
  · have hcounts : last.counts = (results.map fun r => Counts.one r.category).sum := by
      rw [hpushes.counts_eq]
      exact zero_add _
    refine hcounts.trans (congrArg List.sum ?_)
    cases last.openWarning with
    | none => rfl
    | some w => exact (map_attach (fun _ _ => rfl) results w).symm

end Listing

/-! ## All files -/

namespace ListOutcome

/-- The listing, if there is one. -/
def listing? : ListOutcome → Option Listing
  | .listed listing => some listing
  | _ => none

/-- The error, if the file could not be listed. -/
def error? : ListOutcome → Option FileError
  | .failed error => some error
  | _ => none

/-- The outcomes of listing and of counting a file that tell the same. -/
inductive Agrees : ListOutcome → FileOutcome → Prop where
  | listed {listing : Listing} {file : FileStats} {name : String} : listing.Agrees file →
      Agrees (.listed listing) (.counted file name)
  | skipped {path : Path} : Agrees (.skipped path) (.skipped path)
  | failed {error : FileError} : Agrees (.failed error) (.failed error)

variable {listed : List ListOutcome} {outcomes : List FileOutcome}

/-- The listings agree with the files that were counted. -/
theorem forall₂_listing? (h : List.Forall₂ Agrees listed outcomes) :
    List.Forall₂ Listing.Agrees (listed.filterMap listing?)
      (outcomes.filterMap FileOutcome.file?) := by
  induction h with
  | nil => exact .nil
  | cons hagrees _ ih =>
    cases hagrees with
    | listed hlisting => exact .cons hlisting ih
    | skipped | failed => exact ih

/-- The errors are the same. -/
theorem filterMap_error? (h : List.Forall₂ Agrees listed outcomes) :
    listed.filterMap error? = outcomes.filterMap FileOutcome.error? := by
  induction h with
  | nil => rfl
  | cons hagrees _ ih =>
    cases hagrees with
    | listed | skipped => exact ih
    | failed => exact congrArg (List.cons _) ih

end ListOutcome

namespace FileTree

variable {t : FileTree} {registry : Registry} {policy : HeaderPolicy} {forced : Option Profile}
  {path : Path} {found : List Path} {outcome : FileOutcome} {outcomes : List FileOutcome}

/-- A listing says of a file that cannot be read what a count says. -/
theorem listError_eq (path : Path) (failure : ReadFailure) :
    listError path failure = ⟨path, (Error.unreadableFile path failure).message⟩ := by
  have hmessage : (Error.unreadableFile path failure).message =
      "failed to read file '" ++ path.text ++ "': " ++ failure.message := rfl
  have hquote : "'" ++ ": " = "': " := by decide
  rw [listError, hmessage, ← hquote, ← String.append_assoc]

/-- A file that can be counted can be listed, with an outcome that tells the same. -/
theorem exists_listFile (h : t.outcome registry policy forced path = .ok outcome) :
    ∃ listed, t.listFile registry policy forced path = .ok listed ∧ listed.Agrees outcome := by
  rcases outcome_eq_ok_iff.1 h with
    ⟨hlanguage, rfl⟩ | ⟨profile, hlanguage, ⟨file, hcount, rfl⟩ | ⟨failure, hread, rfl⟩⟩
  · exact ⟨.skipped path, by rw [listFile, hlanguage], .skipped⟩
  · obtain ⟨bytes, report, hread, hreport, rfl⟩ := countAs_eq_ok_iff.1 hcount
    obtain ⟨l, hl, hagrees⟩ := Listing.exists_ofText path hreport
    refine ⟨.listed l, ?_, .listed hagrees⟩
    simp only [listFile, hlanguage, hread, hl, Fault.lift]
    rfl
  · exact ⟨_, by simp only [listFile, hlanguage, hread, listError_eq], .failed⟩

/-- So it is for files in order. -/
theorem Outcomes.exists_listed (h : t.Outcomes registry policy forced found outcomes) :
    ∃ listed,
      List.Forall₂ (fun path o => t.listFile registry policy forced path = .ok o) found listed ∧
      List.Forall₂ ListOutcome.Agrees listed outcomes := by
  induction h with
  | nil => exact ⟨[], .nil, .nil⟩
  | cons houtcome _ ih =>
    obtain ⟨first, hfirst, hagrees⟩ := exists_listFile houtcome
    obtain ⟨listed, hlisted, hall⟩ := ih
    exact ⟨first :: listed, .cons hfirst hlisted, .cons hagrees hall⟩

/-- Where files can be counted they can be listed. The listings are of the files that were counted,
in the same order, and tell the same of them; the errors are the same. -/
theorem list_agrees {options : CountOptions} {paths : List Path} {r : CountResult}
    (h : t.count registry options paths = .ok r) :
    ∃ listings, t.list registry options paths = .ok (listings, r.errors) ∧
      List.Forall₂ Listing.Agrees listings r.files := by
  obtain ⟨forced, found, outcomes, hforced, hfound, houtcomes, hr⟩ := count_eq_ok_iff.1 h
  obtain ⟨tally, -, rfl⟩ := CountResult.ofOutcomes_eq_ok_iff.1 hr
  obtain ⟨listed, hlisted, hagrees⟩ := houtcomes.exists_listed
  refine ⟨listed.filterMap ListOutcome.listing?, ?_, ListOutcome.forall₂_listing? hagrees⟩
  simp only [list, bind_eq_ok_iff]
  refine ⟨forced, hforced, found, hfound, listed, mapM_eq_ok_iff.2 hlisted, ?_⟩
  rw [← ListOutcome.filterMap_error? hagrees]
  rfl

/-- The warning about the string and the one about the comment stand beside their own lines. -/
theorem list_agrees_mixed : ∃ (r : CountResult) (listings : List Listing),
    mixed.count (History.ofCalls [.register .curly]).registry {} [".", "./."] = .ok r ∧
    mixed.list (History.ofCalls [.register .curly]).registry {} [".", "./."] =
      .ok (listings, r.errors) ∧
    List.Forall₂ Listing.Agrees listings r.files ∧
    r.errors.map FileError.path = [Path.ofText "./b.c"] ∧
    listings.map (·.results.filterMap LineResult.warned?) =
      [[(1, .unterminatedString 1), (2, .unterminatedBlock 2)]] := by
  obtain ⟨listings, hlist, hagrees⟩ := list_agrees count_mixed
  refine ⟨_, listings, count_mixed, hlist, hagrees, rfl, ?_⟩
  cases hagrees with
  | cons hfirst hrest =>
    cases hrest
    exact congrArg (fun warned => [warned]) hfirst.warnings

end FileTree

end SourceTally
