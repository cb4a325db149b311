import SourceTally.Proofs.Count.Outcome
import SourceTally.Proofs.Discovery
import SourceTally.Proofs.Registry.History
import SourceTally.Proofs.Text.Bytes

/-!
# The result of a count

A count accounts for every file that it finds (`CountResult.Accounts`): the file is counted, skipped
or noted as unreadable, once, and each of the three lists keeps the order in which the files were
found. The totals are those of the files that were counted, in all and for each language
(`CountResult.Totals`). `FileTree.count_accounts` puts both together and says what becomes of each
file, with and without a language for all of them.
-/

namespace SourceTally

open FileOutcome

/-- Every file that was found is in exactly one of the lists, and the lists keep the order. -/
structure CountResult.Accounts (r : CountResult) (found : List Path) : Prop where
  perm : (r.files.map FileStats.path ++ r.skipped ++ r.errors.map FileError.path).Perm found
  files : (r.files.map FileStats.path).Sublist found
  skipped : r.skipped.Sublist found
  errors : (r.errors.map FileError.path).Sublist found

/-- The lists hold of each file what counting it by itself comes to. -/
structure CountResult.Reflects (r : CountResult) (countOne : Path → Except Error FileStats)
    (found : List Path) : Prop where
  files : ∀ path ∈ found, ∀ file, (file ∈ r.files ∧ file.path = path) ↔ countOne path = .ok file
  skipped : ∀ path ∈ found,
    path ∈ r.skipped ↔ ∃ name, countOne path = .error (.unknownLanguage name)
  errors : ∀ path ∈ found, ∀ message, ⟨path, message⟩ ∈ r.errors ↔
    ∃ failure, countOne path = .error (.unreadableFile path failure) ∧
      message = (Error.unreadableFile path failure).message

/-- The totals are those of the files. There is one entry for each of their languages, in the order
of the bytes of the ids, under the name that the language has in the registry. -/
structure CountResult.Totals (registry : Registry) (r : CountResult) : Prop where
  fileCount : r.fileCount = r.files.length
  total : r.total = (r.files.map FileStats.stats).sum
  increasing : r.languages.Pairwise fun a b => Text.bytes a.language < Text.bytes b.language
  mem_language_iff : ∀ id,
    id ∈ r.languages.map LanguageStats.language ↔ id ∈ r.files.map FileStats.language
  name : ∀ l ∈ r.languages, ∃ profile, registry.get? l.language = some profile ∧
    profile.id = l.language ∧ l.name = profile.name
  language : ∀ l ∈ r.languages,
    l.fileCount = (r.files.filter (·.language = l.language)).length ∧
    l.stats = ((r.files.filter (·.language = l.language)).map FileStats.stats).sum

/-! ## The totals -/

namespace FileOutcome

variable {outcomes : List FileOutcome}

/-- The counts that are added up are those of the files. -/
theorem map_counts_item? (outcomes : List FileOutcome) :
    (outcomes.filterMap item?).map Tally.Item.counts =
      (outcomes.filterMap file?).map FileStats.stats := by
  have hpairs := congrArg (List.map Prod.snd) (map_item? outcomes)
  rwa [List.map_map, List.map_map] at hpairs

/-- So are the languages. -/
theorem map_language_item? (outcomes : List FileOutcome) :
    (outcomes.filterMap item?).map Tally.Item.language =
      (outcomes.filterMap file?).map FileStats.language := by
  have hpairs := congrArg (List.map Prod.fst) (map_item? outcomes)
  rwa [List.map_map, List.map_map] at hpairs

/-- And so are the counts of one language. -/
theorem map_counts_filter_item? (outcomes : List FileOutcome) (id : String) :
    ((outcomes.filterMap item?).filter (·.language = id)).map Tally.Item.counts =
      ((outcomes.filterMap file?).filter (·.language = id)).map FileStats.stats := by
  have hpairs := congrArg (fun pairs => (pairs.filter (·.1 = id)).map Prod.snd) (map_item? outcomes)
  simp only [List.filter_map, List.map_map] at hpairs
  exact hpairs

end FileOutcome

namespace FileTree

variable {t : FileTree} {registry : Registry} {policy : HeaderPolicy} {forced : Option Profile}
  {found : List Path} {outcomes : List FileOutcome} {path : Path} {file : FileStats}
  {profile : Profile} {failure : ReadFailure}

/-- The language of a file is one of the registry. -/
theorem mem_of_languageOf (hforced : ∀ p, forced = some p → p ∈ registry.profiles)
    (h : languageOf registry forced path = some profile) : profile ∈ registry.profiles := by
  cases forced with
  | some p => exact hforced profile h
  | none =>
    rcases registry.resolvePath_cases path with ⟨p, hp, hresolve⟩ | hresolve
    · simp only [languageOf, hresolve] at h
      cases h
      exact hp
    · simp only [languageOf, hresolve] at h
      cases h

/-- A file is counted under the name that its language has in the registry. -/
theorem Outcomes.name_of_mem (h : t.Outcomes registry policy forced found outcomes)
    (hforced : ∀ p, forced = some p → p ∈ registry.profiles) {item : Tally.Item}
    (hitem : item ∈ outcomes.filterMap item?) :
    ∃ profile ∈ registry.profiles, profile.id = item.language ∧ item.name = profile.name := by
  obtain ⟨outcome, houtcome, hitem⟩ := List.mem_filterMap.1 hitem
  obtain ⟨path, -, hpath⟩ := (mem_iff_of_forall₂ h).1 houtcome
  rcases outcome_eq_ok_iff.1 hpath with
    ⟨-, rfl⟩ | ⟨profile, hlanguage, ⟨file, hfile, rfl⟩ | ⟨failure, -, rfl⟩⟩
  · cases hitem
  · cases hitem
    obtain ⟨bytes, report, -, -, rfl⟩ := countAs_eq_ok_iff.1 hfile
    exact ⟨profile, mem_of_languageOf hforced hlanguage, rfl, rfl⟩
  · cases hitem

/-- The totals of outcomes are those of the files that were counted. -/
theorem Outcomes.totals (h : t.Outcomes registry policy forced found outcomes)
    (built : registry.Built) (hforced : ∀ p, forced = some p → p ∈ registry.profiles)
    {r : CountResult} (hr : CountResult.ofOutcomes outcomes = .ok r) : r.Totals registry := by
  obtain ⟨tally, hadd, rfl⟩ := CountResult.ofOutcomes_eq_ok_iff.1 hr
  have hsums : Tally.Sums (outcomes.filterMap item?) tally := Tally.sums_nil.addAll hadd
  obtain ⟨log, hviews⟩ := built.views
  refine ⟨?_, ?_, ?_, fun id => ?_, fun l hl => ?_, fun l hl => ?_⟩
  · rw [hsums.fileCount]
    simpa using congrArg List.length (map_counts_item? outcomes)
  · rw [hsums.total, map_counts_item?]
  · exact hsums.pairwise_languageStats.imp Text.bytes_lt_of_lt
  · rw [hsums.mem_language_iff, map_language_item?]
  · obtain ⟨first, hfirst, hstats⟩ := Option.map_eq_some_iff.1 (hsums.mem_languageStats_iff.1 hl)
    obtain ⟨profile, hprofile, hid, hname⟩ :=
      h.name_of_mem hforced (List.mem_of_find?_eq_some hfirst)
    have hlanguage : first.language = l.language := by simpa using List.find?_some hfirst
    refine ⟨profile, hviews.get?_eq_some_iff.2 ⟨hprofile, ?_⟩, hid.trans hlanguage, ?_⟩
    · rw [Profile.key, hid, hlanguage]
    · rw [← hname, ← hstats]
  · obtain ⟨first, -, hstats⟩ := Option.map_eq_some_iff.1 (hsums.mem_languageStats_iff.1 hl)
    have hown := map_counts_filter_item? outcomes l.language
    constructor
    · calc l.fileCount
        _ = ((outcomes.filterMap item?).filter (·.language = l.language)).length := by rw [← hstats]
        _ = ((outcomes.filterMap file?).filter (·.language = l.language)).length := by
          simpa using congrArg List.length hown
    · calc l.stats
        _ = (((outcomes.filterMap item?).filter (·.language = l.language)).map
              Tally.Item.counts).sum := by rw [← hstats]
        _ = _ := by rw [hown]

/-! ## The files -/

/-- Outcomes account for the files that they are about. -/
theorem Outcomes.accounts (h : t.Outcomes registry policy forced found outcomes)
    {r : CountResult} (hr : CountResult.ofOutcomes outcomes = .ok r) : r.Accounts found := by
  obtain ⟨tally, -, rfl⟩ := CountResult.ofOutcomes_eq_ok_iff.1 hr
  rw [← h.filterMap_path]
  refine ⟨perm_path outcomes, sublist_path ?_ outcomes, ?_, sublist_path ?_ outcomes⟩
  · rintro (⟨file, name⟩ | ⟨path⟩ | ⟨error⟩ | _) a ⟨⟩
    rfl
  · rw [← List.map_id (outcomes.filterMap skipped?)]
    refine sublist_path ?_ outcomes
    rintro (⟨file, name⟩ | ⟨path⟩ | ⟨error⟩ | _) a ⟨⟩
    rfl
  · rintro (⟨file, name⟩ | ⟨path⟩ | ⟨error⟩ | _) a ⟨⟩
    rfl

/-- Counts a file in the given language or else in the one that its name belongs to. -/
def countOne (t : FileTree) (registry : Registry) (policy : HeaderPolicy)
    (forced : Option Profile) (path : Path) : Except Error FileStats :=
  forced.elim (t.countFile registry policy path) (t.countAs policy · path)

theorem countOne_of_languageOf (h : languageOf registry forced path = some profile) :
    t.countOne registry policy forced path = t.countAs policy profile path := by
  cases forced with
  | some p =>
    cases h
    rfl
  | none =>
    rcases registry.resolvePath_cases path with ⟨p, -, hresolve⟩ | hresolve
    · simp only [languageOf, hresolve] at h
      cases h
      simp only [countOne, Option.elim, countFile, hresolve]
      rfl
    · simp only [languageOf, hresolve] at h
      cases h

theorem countOne_of_languageOf_eq_none (h : languageOf registry forced path = none) :
    t.countOne registry policy forced path = .error (.unknownLanguage path.text) := by
  cases forced with
  | some p => cases h
  | none =>
    rcases registry.resolvePath_cases path with ⟨p, -, hresolve⟩ | hresolve
    · simp only [languageOf, hresolve] at h
      cases h
    · simp only [countOne, Option.elim, countFile, hresolve]
      rfl

/-- Outcomes hold of each file what counting it by itself comes to. -/
theorem Outcomes.reflects (h : t.Outcomes registry policy forced found outcomes)
    {r : CountResult} (hr : CountResult.ofOutcomes outcomes = .ok r) :
    r.Reflects (t.countOne registry policy forced) found := by
  obtain ⟨tally, -, rfl⟩ := CountResult.ofOutcomes_eq_ok_iff.1 hr
  refine ⟨fun path hpath file => ?_, fun path hpath => ?_, fun path hpath message => ?_⟩
  · rw [h.mem_files_iff]
    constructor
    · rintro ⟨⟨path', -, profile, hlanguage, hcount⟩, rfl⟩
      obtain rfl := path_of_countAs hcount
      rwa [countOne_of_languageOf hlanguage]
    · intro hone
      cases hlanguage : languageOf registry forced path with
      | none =>
        rw [countOne_of_languageOf_eq_none hlanguage] at hone
        cases hone
      | some profile =>
        rw [countOne_of_languageOf hlanguage] at hone
        exact ⟨⟨path, hpath, profile, hlanguage, hone⟩, path_of_countAs hone⟩
  · rw [h.mem_skipped_iff, and_iff_right hpath]
    cases hlanguage : languageOf registry forced path with
    | none => simp [countOne_of_languageOf_eq_none hlanguage]
    | some profile => simp [countOne_of_languageOf hlanguage, countAs_eq_error_iff]
  · rw [h.mem_errors_iff]
    constructor
    · rintro ⟨path', -, profile, failure, hlanguage, hread, herror⟩
      cases herror
      rw [countOne_of_languageOf hlanguage]
      exact ⟨failure, countAs_of_unreadable hread, rfl⟩
    · rintro ⟨failure, hone, rfl⟩
      cases hlanguage : languageOf registry forced path with
      | none =>
        rw [countOne_of_languageOf_eq_none hlanguage] at hone
        cases hone
      | some profile =>
        rw [countOne_of_languageOf hlanguage, countAs_eq_error_iff (by simp)] at hone
        obtain ⟨failure', hread, heq⟩ := hone
        cases heq
        exact ⟨path, hpath, profile, failure, hlanguage, hread, rfl⟩

/-- In a language for all files none is skipped. -/
theorem Outcomes.skipped_eq_nil (h : t.Outcomes registry policy (some profile) found outcomes)
    {r : CountResult} (hr : CountResult.ofOutcomes outcomes = .ok r) : r.skipped = [] := by
  obtain ⟨tally, -, rfl⟩ := CountResult.ofOutcomes_eq_ok_iff.1 hr
  refine List.eq_nil_iff_forall_not_mem.2 fun path hpath => ?_
  cases (h.mem_skipped_iff.1 hpath).2

/-- In a language for all files those that cannot be read are noted. -/
theorem Outcomes.mem_map_errors_iff (h : t.Outcomes registry policy (some profile) found outcomes)
    {r : CountResult} (hr : CountResult.ofOutcomes outcomes = .ok r) (hpath : path ∈ found) :
    path ∈ r.errors.map FileError.path ↔ ∃ failure, t.read path = .error failure := by
  obtain ⟨tally, -, rfl⟩ := CountResult.ofOutcomes_eq_ok_iff.1 hr
  simp only [List.mem_map, h.mem_errors_iff]
  constructor
  · rintro ⟨error, ⟨path, -, profile, failure, -, hread, rfl⟩, rfl⟩
    exact ⟨failure, hread⟩
  · rintro ⟨failure, hread⟩
    exact ⟨_, ⟨path, hpath, profile, failure, rfl, hread, rfl⟩, rfl⟩

/-! ## The language of all files -/

theorem forcedLanguage_some_eq_ok_iff {name : String} :
    forcedLanguage registry (some name) = .ok forced ↔
      ∃ profile, registry.resolve name = .ok profile ∧ forced = some profile := by
  cases hresolve : registry.resolve name with
  | error e => simp [forcedLanguage, hresolve]
  | ok profile => simp [forcedLanguage, hresolve, eq_comm]

/-- The language of all files is one of the registry. -/
theorem mem_of_forcedLanguage {language : Option String}
    (h : forcedLanguage registry language = .ok forced) :
    ∀ p, forced = some p → p ∈ registry.profiles := by
  cases language with
  | none =>
    cases h
    intro p hp
    cases hp
  | some name =>
    obtain ⟨profile, hresolve, rfl⟩ := forcedLanguage_some_eq_ok_iff.1 h
    rintro p ⟨⟩
    exact Registry.mem_of_resolve hresolve

/-! ## Counting -/

/-- A count that succeeds accounts for every file that is discovered. Without a language for all of
them, a file is counted, skipped or noted as `countFile` has it. With one, no file is skipped, and
those that cannot be read are noted. The totals are those of the files that were counted. -/
theorem count_accounts {options : CountOptions} {paths : List Path} {r : CountResult}
    (built : registry.Built) (h : t.count registry options paths = .ok r) :
    ∃ found, t.discoverAll options.filter paths = .ok found ∧ found.Nodup ∧ r.Accounts found ∧
      (options.language = none → r.Reflects (t.countFile registry options.header) found) ∧
      (∀ name, options.language = some name → ∃ profile, registry.resolve name = .ok profile ∧
        r.Reflects (t.countAs options.header profile) found ∧ r.skipped = [] ∧
        ∀ path ∈ found,
          path ∈ r.errors.map FileError.path ↔ ∃ failure, t.read path = .error failure) ∧
      r.Totals registry ∧ r.cancelled = false := by
  obtain ⟨forced, found, outcomes, hforced, hfound, houtcomes, hr⟩ := count_eq_ok_iff.1 h
  refine ⟨found, hfound, nodup_discoverAll hfound, houtcomes.accounts hr, ?_, ?_,
    houtcomes.totals built (mem_of_forcedLanguage hforced) hr, ?_⟩
  · intro hnone
    rw [hnone] at hforced
    cases hforced
    exact houtcomes.reflects hr
  · intro name hname
    obtain ⟨profile, hresolve, rfl⟩ := forcedLanguage_some_eq_ok_iff.1 (hname ▸ hforced)
    refine ⟨profile, hresolve, houtcomes.reflects hr, houtcomes.skipped_eq_nil hr, ?_⟩
    exact fun path hpath => houtcomes.mem_map_errors_iff hr hpath
  · obtain ⟨tally, -, rfl⟩ := CountResult.ofOutcomes_eq_ok_iff.1 hr
    exact houtcomes.any_isCancelled

end FileTree

/-! ## A sample -/

/-- A language with block comments, and with strings that end where a line does. -/
def Profile.curly : Profile where
  id := "c"
  name := "C"
  extensions := ["c"]
  blockComments := [⟨"/*".toList, "*/".toList, false⟩]
  strings := [⟨['"'], ['"'], .none, false⟩]

namespace FileTree

/-- A file to count, one that cannot be read and one that belongs to no language. The first has a
string that is given up on one line and a comment that is left open on the next. -/
def mixed : FileTree where
  entries :=
    [(["a.c"], .file [34, 98, 10, 47, 42]), (["b.c"], .unreadable), (["notes"], .file [120])]

theorem discoverAll_mixed : mixed.discoverAll {} [".", "./."] =
    .ok ["./a.c", "./b.c", "./notes"] := by
  rw [discoverAll_eq_ok_iff]
  refine ⟨[["./a.c", "./b.c", "./notes"], ["././a.c", "././b.c", "././notes"]],
    .cons ?_ (.cons ?_ .nil), ?_⟩
  · cbv
  · cbv
  · cbv

/-- One of the files is counted, one cannot be read and one is skipped. -/
theorem outcome_mixed :
    mixed.outcome (History.ofCalls [.register .curly]).registry {} none "./a.c" =
      .ok (.counted ⟨"./a.c", "c", { code := 1, comment := 1, total := 2 },
        [.unterminatedString 1, .unterminatedBlock 2]⟩ "C") ∧
    mixed.outcome (History.ofCalls [.register .curly]).registry {} none "./b.c" =
      .ok (.failed ⟨"./b.c", (Error.unreadableFile "./b.c" .inputOutput).message⟩) ∧
    mixed.outcome (History.ofCalls [.register .curly]).registry {} none "./notes" =
      .ok (.skipped "./notes") := by
  have hregistry : (History.ofCalls [.register .curly]).registry =
      { profiles := [.curly], idIndex := [("c", 0)], extensionIndex := [("c", 0)] } := by cbv
  have hread : mixed.read "./a.c" = .ok [34, 98, 10, 47, 42] := by
    have hresolve : mixed.resolve "./a.c" = mixed.follow maxLinks [] [.current, "a.c"] := rfl
    rw [read, hresolve]
    cbv
  have hunread : mixed.read "./b.c" = .error .inputOutput := by
    have hresolve : mixed.resolve "./b.c" = mixed.follow maxLinks [] [.current, "b.c"] := rfl
    rw [read, hresolve]
    cbv
  have hcount : mixed.countAs {} .curly "./a.c" =
      .ok ⟨"./a.c", "c", { code := 1, comment := 1, total := 2 },
        [.unterminatedString 1, .unterminatedBlock 2]⟩ := by
    rw [countAs_of_read hread]
    cbv
  rw [hregistry]
  refine ⟨outcome_eq_ok_iff.2 (.inr ⟨.curly, ?_, .inl ⟨_, hcount, rfl⟩⟩),
    outcome_eq_ok_iff.2 (.inr ⟨.curly, ?_, .inr ⟨_, hunread, rfl⟩⟩),
    outcome_eq_ok_iff.2 (.inl ⟨?_, rfl⟩)⟩
  · cbv
  · cbv
  · cbv

/-- The directory is given twice and its files are counted once. -/
theorem count_mixed :
    mixed.count (History.ofCalls [.register .curly]).registry {} [".", "./."] = .ok {
      fileCount := 1
      total := { code := 1, comment := 1, total := 2 }
      languages := [⟨"c", "C", 1, { code := 1, comment := 1, total := 2 }⟩]
      files := [⟨"./a.c", "c", { code := 1, comment := 1, total := 2 },
        [.unterminatedString 1, .unterminatedBlock 2]⟩]
      skipped := ["./notes"]
      errors := [⟨"./b.c", (Error.unreadableFile "./b.c" .inputOutput).message⟩] } := by
  obtain ⟨hcounted, hfailed, hskipped⟩ := outcome_mixed
  exact count_eq_ok_iff.2 ⟨none, _, _, rfl, discoverAll_mixed,
    .cons hcounted (.cons hfailed (.cons hskipped .nil)), rfl⟩

theorem count_accounts_mixed :
    (History.ofCalls [.register .curly]).registry.Built ∧ ∃ r : CountResult,
      mixed.count (History.ofCalls [.register .curly]).registry {} [".", "./."] = .ok r ∧
      r.Accounts ["./a.c", "./b.c", "./notes"] ∧
      r.Reflects (mixed.countFile (History.ofCalls [.register .curly]).registry {})
        ["./a.c", "./b.c", "./notes"] ∧
      r.Totals (History.ofCalls [.register .curly]).registry ∧
      r.files.map FileStats.path = [Path.ofText "./a.c"] ∧
      r.skipped = [Path.ofText "./notes"] ∧
      r.errors.map FileError.path = [Path.ofText "./b.c"] := by
  have built : (History.ofCalls [.register .curly]).registry.Built := ⟨_, rfl⟩
  obtain ⟨found, hfound, -, haccounts, hreflects, -, htotals, -⟩ := count_accounts built count_mixed
  cases hfound.symm.trans discoverAll_mixed
  exact ⟨built, _, count_mixed, haccounts, hreflects rfl, htotals, rfl, rfl, rfl⟩

end FileTree

end SourceTally
