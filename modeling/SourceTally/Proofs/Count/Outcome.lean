import SourceTally.Count
import SourceTally.Proofs.Tally

/-!
# The outcomes of single files

A count takes every file by itself and puts the outcomes together at the end. The result is a
function of the list of outcomes (`CountResult.ofOutcomes_eq_ok_iff`): each kind of outcome has a
list of its own, in the order of the files, and the tally is that of the files that were counted.
No outcome is lost or in two lists (`FileOutcome.perm_path`). What becomes of a file is decided by
its language and by whether it can be read (`FileTree.outcome_eq_ok_iff`), and so is the list that
it is in (`FileTree.Outcomes.mem_files_iff` and its likes).

A count that is called off, at whichever files, comes to what the files come to that it took, and
says that it was called off (`FileTree.count_raised_eq_ok_iff`).
-/

namespace SourceTally

theorem Fault.lift_eq_ok_iff {α : Type} {x : Except Fault α} {a : α} :
    Fault.lift x = .ok a ↔ x = .ok a := by
  cases x <;> simp [Fault.lift]

/-! ## Lists of outcomes -/

namespace FileOutcome

/-- The file that was taken. -/
def path? : FileOutcome → Option Path
  | .counted file _ => some file.path
  | .skipped path => some path
  | .failed error => some error.path
  | .cancelled => none

/-- The file was left, because the count was called off. -/
def isCancelled : FileOutcome → Bool
  | .cancelled => true
  | _ => false

/-- The file, if it was counted. -/
def file? : FileOutcome → Option FileStats
  | .counted file _ => some file
  | _ => none

/-- The path, if the file was skipped. -/
def skipped? : FileOutcome → Option Path
  | .skipped path => some path
  | _ => none

/-- The error, if the file could not be counted. -/
def error? : FileOutcome → Option FileError
  | .failed error => some error
  | _ => none

/-- The file as a tally takes it, if it was counted. -/
def item? : FileOutcome → Option Tally.Item
  | .counted file name => some ⟨file.language, name, file.stats⟩
  | _ => none

/-- Every outcome is in exactly one of the lists. -/
theorem perm_path (outcomes : List FileOutcome) :
    ((outcomes.filterMap file?).map FileStats.path ++ outcomes.filterMap skipped? ++
      (outcomes.filterMap error?).map FileError.path).Perm (outcomes.filterMap path?) := by
  induction outcomes with
  | nil => exact List.Perm.nil
  | cons outcome outcomes ih =>
    cases outcome with
    | counted file name => exact ih.cons file.path
    | skipped path =>
      refine List.Perm.trans ?_ (ih.cons path)
      exact List.perm_middle.append_right _
    | failed error =>
      refine List.Perm.trans ?_ (ih.cons error.path)
      exact List.perm_middle
    | cancelled => exact ih

/-- What is told of some outcomes only is told in the order of the outcomes. -/
theorem sublist_path {α : Type} {part : FileOutcome → Option α} {pathOf : α → Path}
    (hpath : ∀ outcome a, part outcome = some a → outcome.path? = some (pathOf a))
    (outcomes : List FileOutcome) :
    ((outcomes.filterMap part).map pathOf).Sublist (outcomes.filterMap path?) := by
  induction outcomes with
  | nil => exact List.Sublist.slnil
  | cons outcome outcomes ih =>
    cases hpart : part outcome with
    | none =>
      rw [List.filterMap_cons_none hpart]
      exact ih.trans ((List.sublist_cons_self outcome outcomes).filterMap path?)
    | some a =>
      rw [List.filterMap_cons_some hpart, List.map_cons,
        List.filterMap_cons_some (hpath outcome a hpart)]
      exact ih.cons_cons (pathOf a)

/-- The files that were counted are those that a tally takes, but for the names. -/
theorem map_item? (outcomes : List FileOutcome) :
    (outcomes.filterMap item?).map (fun item => (item.language, item.counts)) =
      (outcomes.filterMap file?).map fun file => (file.language, file.stats) := by
  induction outcomes with
  | nil => rfl
  | cons outcome outcomes ih =>
    cases outcome with
    | counted file name => exact congrArg (List.cons _) ih
    | skipped | failed | cancelled => exact ih

/-- What is not told of files that were left is told as if they were not there. -/
theorem filterMap_filter_isCancelled {α : Type} (part : FileOutcome → Option α)
    (hpart : part .cancelled = none) (outcomes : List FileOutcome) :
    (outcomes.filter (!·.isCancelled)).filterMap part = outcomes.filterMap part := by
  rw [List.filterMap_filter]
  refine List.filterMap_congr fun outcome _ => ?_
  cases outcome with
  | cancelled => exact hpart.symm
  | counted | skipped | failed => rfl

end FileOutcome

namespace CountResult

open FileOutcome

/-- Every outcome goes to the end of its list. -/
theorem foldl_push (outcomes : List FileOutcome) (r : CountResult) :
    outcomes.foldl push r = { r with
      files := r.files ++ outcomes.filterMap file?
      skipped := r.skipped ++ outcomes.filterMap skipped?
      errors := r.errors ++ outcomes.filterMap error?
      cancelled := r.cancelled || outcomes.any isCancelled } := by
  induction outcomes generalizing r with
  | nil => simp
  | cons outcome outcomes ih =>
    rw [List.foldl_cons, ih]
    cases outcome <;> simp [push, file?, skipped?, error?, isCancelled, List.filterMap_cons]

/-- The tally is that of the files that were counted. -/
theorem foldlM_addFile (outcomes : List FileOutcome) (t : Tally) :
    outcomes.foldlM tally.addFile t = t.addAll (outcomes.filterMap item?) := by
  induction outcomes generalizing t with
  | nil => rfl
  | cons outcome outcomes ih =>
    rw [List.foldlM_cons]
    simp only [ih]
    cases outcome <;> rfl

/-- The result is made from the lists of the outcomes and the tally of the files. -/
theorem ofOutcomes_eq_ok_iff {outcomes : List FileOutcome} {r : CountResult} :
    ofOutcomes outcomes = .ok r ↔
      ∃ t, Tally.addAll {} (outcomes.filterMap item?) = .ok t ∧
        r = { fileCount := t.fileCount
              total := t.total
              languages := t.languageStats
              files := outcomes.filterMap file?
              skipped := outcomes.filterMap skipped?
              errors := outcomes.filterMap error?
              cancelled := outcomes.any isCancelled } := by
  simp only [ofOutcomes, tally, bind_eq_ok_iff, foldlM_addFile, foldl_push]
  refine exists_congr fun t => and_congr_right fun _ => ?_
  exact ⟨fun h => (Except.ok.inj h).symm, fun h => congrArg Except.ok h.symm⟩

/-- The result is that of the files that were taken, but for whether any were left. -/
theorem ofOutcomes_eq_ok_iff_of_taken {outcomes : List FileOutcome} {r : CountResult} :
    ofOutcomes outcomes = .ok r ↔
      ∃ taken, ofOutcomes (outcomes.filter (!·.isCancelled)) = .ok taken ∧
        r = { taken with cancelled := outcomes.any isCancelled } := by
  simp only [ofOutcomes_eq_ok_iff, filterMap_filter_isCancelled item? rfl,
    filterMap_filter_isCancelled file? rfl, filterMap_filter_isCancelled skipped? rfl,
    filterMap_filter_isCancelled error? rfl]
  constructor
  · rintro ⟨t, ht, rfl⟩
    exact ⟨_, ⟨t, ht, rfl⟩, rfl⟩
  · rintro ⟨_, ⟨t, ht, rfl⟩, rfl⟩
    exact ⟨t, ht, rfl⟩

end CountResult

/-! ## One file -/

namespace FileTree

variable {t : FileTree} {registry : Registry} {policy : HeaderPolicy} {profile : Profile}
  {forced : Option Profile} {path : Path} {file : FileStats} {failure : ReadFailure}
  {outcome : FileOutcome}

theorem countAs_of_unreadable (h : t.read path = .error failure) :
    t.countAs policy profile path = .error (.unreadableFile path failure) := by
  unfold countAs
  rw [h]

theorem countAs_of_read {bytes : List UInt8} (h : t.read path = .ok bytes) :
    t.countAs policy profile path =
      (Fault.lift (profile.classifyFile policy (Text.decodeLossy bytes))).map fun report =>
        ⟨path, profile.id, report.counts, report.warnings⟩ := by
  unfold countAs
  rw [h]
  rfl

/-- A file is counted in a language when it can be read and classified. -/
theorem countAs_eq_ok_iff :
    t.countAs policy profile path = .ok file ↔
      ∃ bytes report, t.read path = .ok bytes ∧
        profile.classifyFile policy (Text.decodeLossy bytes) = .ok report ∧
        file = ⟨path, profile.id, report.counts, report.warnings⟩ := by
  cases hread : t.read path with
  | error failure => simp [countAs_of_unreadable hread]
  | ok bytes =>
    rw [countAs_of_read hread]
    cases hreport : profile.classifyFile policy (Text.decodeLossy bytes) with
    | error fault => simp [hreport, Fault.lift, Except.map]
    | ok report => simp [hreport, Fault.lift, Except.map, eq_comm]

theorem path_of_countAs (h : t.countAs policy profile path = .ok file) : file.path = path := by
  obtain ⟨bytes, report, -, -, rfl⟩ := countAs_eq_ok_iff.1 h
  rfl

/-- Unless numbers grow too large, counting a file in a language fails only because it cannot be
read. -/
theorem countAs_eq_error_iff {e : Error} (h : ∀ fault, e ≠ .outOfRange fault) :
    t.countAs policy profile path = .error e ↔
      ∃ failure, t.read path = .error failure ∧ e = .unreadableFile path failure := by
  cases hread : t.read path with
  | error failure => simp [countAs_of_unreadable hread, eq_comm]
  | ok bytes =>
    rw [countAs_of_read hread]
    cases profile.classifyFile policy (Text.decodeLossy bytes) with
    | error fault => simp [Fault.lift, Except.map, (h fault).symm]
    | ok report => simp [Fault.lift, Except.map]

/-- A file without a language is skipped. A file with one is counted in it, or it cannot be read. -/
theorem outcome_eq_ok_iff :
    t.outcome registry policy forced path = .ok outcome ↔
      (languageOf registry forced path = none ∧ outcome = .skipped path) ∨
      ∃ profile, languageOf registry forced path = some profile ∧
        ((∃ file, t.countAs policy profile path = .ok file ∧
            outcome = .counted file profile.name) ∨
          ∃ failure, t.read path = .error failure ∧
            outcome = .failed ⟨path, (Error.unreadableFile path failure).message⟩) := by
  unfold FileTree.outcome
  cases languageOf registry forced path with
  | none => simp [eq_comm]
  | some profile =>
    cases hread : t.read path with
    | error failure => simp [countAs_of_unreadable hread, eq_comm]
    | ok bytes =>
      cases hreport : profile.classifyFile policy (Text.decodeLossy bytes) with
      | error fault => simp [countAs_of_read hread, hreport, Fault.lift, Except.map]
      | ok report => simp [countAs_of_read hread, hreport, Fault.lift, Except.map, eq_comm]

/-- The outcome of a file is about that file, which is not left. -/
theorem path_outcome (h : t.outcome registry policy forced path = .ok outcome) :
    outcome.path? = some path ∧ outcome.isCancelled = false := by
  rcases outcome_eq_ok_iff.1 h with ⟨-, rfl⟩ | ⟨profile, -, ⟨file, hfile, rfl⟩ | ⟨failure, -, rfl⟩⟩
  · exact ⟨rfl, rfl⟩
  · exact ⟨congrArg some (path_of_countAs hfile), rfl⟩
  · exact ⟨rfl, rfl⟩

/-! ## All files -/

/-- The outcomes of files, one for each. -/
abbrev Outcomes (t : FileTree) (registry : Registry) (policy : HeaderPolicy)
    (forced : Option Profile) (found : List Path) (outcomes : List FileOutcome) : Prop :=
  List.Forall₂ (fun path outcome => t.outcome registry policy forced path = .ok outcome) found
    outcomes

section

variable {found : List Path} {outcomes : List FileOutcome} {error : FileError}

/-- The outcomes are about the files, in their order. -/
theorem Outcomes.filterMap_path (h : t.Outcomes registry policy forced found outcomes) :
    outcomes.filterMap FileOutcome.path? = found := by
  induction h with
  | nil => rfl
  | cons houtcome _ ih => rw [List.filterMap_cons_some (path_outcome houtcome).1, ih]

/-- None of the files is left. -/
theorem Outcomes.any_isCancelled (h : t.Outcomes registry policy forced found outcomes) :
    outcomes.any FileOutcome.isCancelled = false := by
  induction h with
  | nil => rfl
  | cons houtcome _ ih => rw [List.any_cons, (path_outcome houtcome).2, ih, Bool.false_or]

/-- The files that are counted are those that have a language and can be read. -/
theorem Outcomes.mem_files_iff (h : t.Outcomes registry policy forced found outcomes) :
    file ∈ outcomes.filterMap FileOutcome.file? ↔ ∃ path ∈ found, ∃ profile,
      languageOf registry forced path = some profile ∧
        t.countAs policy profile path = .ok file := by
  simp only [List.mem_filterMap, mem_iff_of_forall₂ h]
  constructor
  · rintro ⟨outcome, ⟨path, hpath, houtcome⟩, hfile⟩
    rcases outcome_eq_ok_iff.1 houtcome with
      ⟨-, rfl⟩ | ⟨profile, hlanguage, ⟨file', hcount, rfl⟩ | ⟨failure, -, rfl⟩⟩
    · cases hfile
    · cases hfile
      exact ⟨path, hpath, profile, hlanguage, hcount⟩
    · cases hfile
  · rintro ⟨path, hpath, profile, hlanguage, hcount⟩
    refine ⟨.counted file profile.name, ⟨path, hpath, outcome_eq_ok_iff.2 ?_⟩, rfl⟩
    exact .inr ⟨profile, hlanguage, .inl ⟨file, hcount, rfl⟩⟩

/-- The files that are skipped are those that have no language. -/
theorem Outcomes.mem_skipped_iff (h : t.Outcomes registry policy forced found outcomes) :
    path ∈ outcomes.filterMap FileOutcome.skipped? ↔
      path ∈ found ∧ languageOf registry forced path = none := by
  simp only [List.mem_filterMap, mem_iff_of_forall₂ h]
  constructor
  · rintro ⟨outcome, ⟨path', hpath, houtcome⟩, hskipped⟩
    rcases outcome_eq_ok_iff.1 houtcome with
      ⟨hlanguage, rfl⟩ | ⟨profile, -, ⟨file, -, rfl⟩ | ⟨failure, -, rfl⟩⟩
    · cases hskipped
      exact ⟨hpath, hlanguage⟩
    · cases hskipped
    · cases hskipped
  · rintro ⟨hpath, hlanguage⟩
    exact ⟨_, ⟨path, hpath, outcome_eq_ok_iff.2 (.inl ⟨hlanguage, rfl⟩)⟩, rfl⟩

/-- The files that are noted are those that have a language and cannot be read. -/
theorem Outcomes.mem_errors_iff (h : t.Outcomes registry policy forced found outcomes) :
    error ∈ outcomes.filterMap FileOutcome.error? ↔ ∃ path ∈ found, ∃ profile failure,
      languageOf registry forced path = some profile ∧ t.read path = .error failure ∧
        error = ⟨path, (Error.unreadableFile path failure).message⟩ := by
  simp only [List.mem_filterMap, mem_iff_of_forall₂ h]
  constructor
  · rintro ⟨outcome, ⟨path, hpath, houtcome⟩, herror⟩
    rcases outcome_eq_ok_iff.1 houtcome with
      ⟨-, rfl⟩ | ⟨profile, hlanguage, ⟨file, -, rfl⟩ | ⟨failure, hread, rfl⟩⟩
    · cases herror
    · cases herror
    · cases herror
      exact ⟨path, hpath, profile, failure, hlanguage, hread, rfl⟩
  · rintro ⟨path, hpath, profile, failure, hlanguage, hread, rfl⟩
    refine ⟨.failed _, ⟨path, hpath, outcome_eq_ok_iff.2 ?_⟩, rfl⟩
    exact .inr ⟨profile, hlanguage, .inr ⟨failure, hread, rfl⟩⟩

end

/-! ## Counting -/

section

variable {found : List Path} {outcomes all : List FileOutcome} {raised : Path → Bool}

/-- The outcomes of a count that may be called off, one for each file. -/
abbrev OutcomesUnless (t : FileTree) (registry : Registry) (policy : HeaderPolicy)
    (forced : Option Profile) (raised : Path → Bool) (found : List Path)
    (outcomes : List FileOutcome) : Prop :=
  List.Forall₂
    (fun path outcome => t.outcomeUnless registry policy forced raised path = .ok outcome) found
    outcomes

/-- The files at which the flag is not raised come to what they come to, and the others are left. -/
theorem OutcomesUnless.taken (h : t.OutcomesUnless registry policy forced raised found all) :
    t.Outcomes registry policy forced (found.filter (!raised ·)) (all.filter (!·.isCancelled)) ∧
      all.any FileOutcome.isCancelled = found.any raised := by
  induction h with
  | nil => exact ⟨.nil, rfl⟩
  | @cons path outcome found all houtcome _ ih =>
    rw [outcomeUnless] at houtcome
    cases hraised : raised path with
    | true =>
      rw [hraised, if_pos rfl] at houtcome
      cases houtcome
      refine ⟨?_, ?_⟩
      · simpa [hraised, FileOutcome.isCancelled] using ih.1
      · simp [hraised, FileOutcome.isCancelled]
    | false =>
      rw [hraised, if_neg Bool.false_ne_true] at houtcome
      have hkept := (path_outcome houtcome).2
      refine ⟨?_, ?_⟩
      · simpa [hraised, hkept] using ⟨houtcome, ih.1⟩
      · simp [hraised, hkept, ih.2]

/-- Every outcome of the files at which the flag is not raised is one of a count that is called off
at the others. -/
theorem Outcomes.exists_unless
    (h : t.Outcomes registry policy forced (found.filter (!raised ·)) outcomes) :
    ∃ all, t.OutcomesUnless registry policy forced raised found all ∧
      all.filter (!·.isCancelled) = outcomes := by
  induction found generalizing outcomes with
  | nil =>
    cases h
    exact ⟨[], .nil, rfl⟩
  | cons path found ih =>
    cases hraised : raised path with
    | true =>
      rw [List.filter_cons_of_neg (by simp [hraised])] at h
      obtain ⟨all, hall, rfl⟩ := ih h
      exact ⟨.cancelled :: all, .cons (by rw [outcomeUnless, hraised, if_pos rfl]) hall, rfl⟩
    | false =>
      rw [List.filter_cons_of_pos (by simp [hraised])] at h
      cases h with
      | cons houtcome hrest =>
        obtain ⟨all, hall, rfl⟩ := ih hrest
        have hkept := (path_outcome houtcome).2
        refine ⟨_ :: all, .cons ?_ hall, List.filter_cons_of_pos (by simp [hkept])⟩
        rw [outcomeUnless, hraised, if_neg Bool.false_ne_true, houtcome]

end

variable {options : CountOptions} {paths : List Path} {r : CountResult} {raised : Path → Bool}

/-- A count that may be called off finds its files, puts the outcomes of those together at which the
flag is not raised, and says whether there were others. -/
theorem count_raised_eq_ok_iff :
    t.count registry options paths raised = .ok r ↔ ∃ forced found outcomes taken,
      forcedLanguage registry options.language = .ok forced ∧
      t.discoverAll options.filter paths = .ok found ∧
      t.Outcomes registry options.header forced (found.filter (!raised ·)) outcomes ∧
      CountResult.ofOutcomes outcomes = .ok taken ∧
      r = { taken with cancelled := found.any raised } := by
  simp only [count, bind_eq_ok_iff, mapM_eq_ok_iff, Fault.lift_eq_ok_iff]
  constructor
  · rintro ⟨forced, hforced, found, hfound, all, hall, hr⟩
    obtain ⟨houtcomes, hany⟩ := OutcomesUnless.taken hall
    obtain ⟨taken, htaken, rfl⟩ := CountResult.ofOutcomes_eq_ok_iff_of_taken.1 hr
    exact ⟨forced, found, _, taken, hforced, hfound, houtcomes, htaken, by rw [hany]⟩
  · rintro ⟨forced, found, outcomes, taken, hforced, hfound, houtcomes, htaken, rfl⟩
    obtain ⟨all, hall, rfl⟩ := houtcomes.exists_unless
    refine ⟨forced, hforced, found, hfound, all, hall,
      CountResult.ofOutcomes_eq_ok_iff_of_taken.2 ⟨taken, htaken, ?_⟩⟩
    rw [(OutcomesUnless.taken hall).2]

/-- A count that is not called off takes the files that it finds and puts their outcomes
together. -/
theorem count_eq_ok_iff :
    t.count registry options paths = .ok r ↔ ∃ forced found outcomes,
      forcedLanguage registry options.language = .ok forced ∧
      t.discoverAll options.filter paths = .ok found ∧
      t.Outcomes registry options.header forced found outcomes ∧
      CountResult.ofOutcomes outcomes = .ok r := by
  simp only [count, outcomeUnless, bind_eq_ok_iff, Bool.false_eq_true, if_false, mapM_eq_ok_iff,
    Fault.lift_eq_ok_iff]
  constructor
  · rintro ⟨forced, hforced, found, hfound, outcomes, houtcomes, hr⟩
    exact ⟨forced, found, outcomes, hforced, hfound, houtcomes, hr⟩
  · rintro ⟨forced, found, outcomes, hforced, hfound, houtcomes, hr⟩
    exact ⟨forced, hforced, found, hfound, outcomes, houtcomes, hr⟩

end FileTree

end SourceTally
