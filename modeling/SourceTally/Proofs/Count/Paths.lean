import SourceTally.Proofs.Count.Result
import SourceTally.Proofs.FileTree.Named

/-!
# Counts of the same paths

A count does not depend on the order in which paths are given, nor on how often. What is found is
the same but for the order and the spelling (`FileTree.perm_components_discoverAll`). What becomes
of a file does not depend on its spelling (`FileTree.exists_outcome_alike`): a file that is found is
reached by a plain path, so that every spelling leads to it, and its language goes by the last
component. Totals do not depend on the order of the files, since a language has one name in a
registry (`CountResult.Totals.eq_of_perm`). `FileTree.count_of_same_paths` puts this together, also
for counts that are called off at the same files.
-/

namespace SourceTally

/-- The results are the same but for the order and the spelling of the paths. -/
structure CountResult.Alike (r r' : CountResult) : Prop where
  fileCount : r.fileCount = r'.fileCount
  total : r.total = r'.total
  languages : r.languages = r'.languages
  files : (r.files.map (·.path.components)).Perm (r'.files.map (·.path.components))
  skipped : (r.skipped.map Path.components).Perm (r'.skipped.map Path.components)
  errors : (r.errors.map (·.path.components)).Perm (r'.errors.map (·.path.components))
  cancelled : r.cancelled = r'.cancelled

/-! ## Totals -/

namespace CountResult

theorem Totals.nodup {registry : Registry} {r : CountResult} (h : r.Totals registry) :
    r.languages.Nodup := by
  refine h.increasing.imp ?_
  rintro l _ hlt rfl
  exact List.lt_irrefl _ hlt

section

variable {registry : Registry} {r r' : CountResult} (h : r.Totals registry)
  (h' : r'.Totals registry)
  (hperm : (r.files.map fun file => (file.language, file.stats)).Perm
    (r'.files.map fun file => (file.language, file.stats)))

include h h' hperm

/-- An entry for a language is determined by the files of the language. -/
theorem Totals.eq_of_language_eq {l l' : LanguageStats} (hl : l ∈ r.languages)
    (hl' : l' ∈ r'.languages) (hlanguage : l.language = l'.language) : l = l' := by
  obtain ⟨profile, hget, -, hname⟩ := h.name l hl
  obtain ⟨profile', hget', -, hname'⟩ := h'.name l' hl'
  obtain ⟨hcount, hstats⟩ := h.language l hl
  obtain ⟨hcount', hstats'⟩ := h'.language l' hl'
  have hown : ((r.files.filter (·.language = l.language)).map FileStats.stats).Perm
      ((r'.files.filter (·.language = l.language)).map FileStats.stats) := by
    have hfilter := (hperm.filter (·.1 = l.language)).map Prod.snd
    simp only [List.filter_map, List.map_map] at hfilter
    exact hfilter
  rw [← hlanguage] at hget' hcount' hstats'
  -- a language has one profile in the registry, and so one name
  have hnames : l.name = l'.name := by
    cases hget.symm.trans hget'
    rw [hname, hname']
  have hcounts : l.fileCount = l'.fileCount := by
    rw [hcount, hcount']
    simpa using hown.length_eq
  have hsums : l.stats = l'.stats := by
    rw [hstats, hstats', hown.sum_eq]
  cases l
  cases l'
  rw [LanguageStats.mk.injEq]
  exact ⟨hlanguage, hnames, hcounts, hsums⟩

/-- A language that has files has the same entry. -/
theorem Totals.mem_of_perm {l : LanguageStats} (hl : l ∈ r.languages) : l ∈ r'.languages := by
  have hlanguages : (r.files.map FileStats.language).Perm (r'.files.map FileStats.language) := by
    have hfirst := hperm.map Prod.fst
    rwa [List.map_map, List.map_map] at hfirst
  have hlanguage : l.language ∈ r'.languages.map LanguageStats.language := by
    rw [h'.mem_language_iff, ← hlanguages.mem_iff, ← h.mem_language_iff]
    exact List.mem_map_of_mem hl
  obtain ⟨l', hl', heq⟩ := List.mem_map.1 hlanguage
  rwa [h.eq_of_language_eq h' hperm hl hl' heq.symm]

/-- Totals go by the languages and counts of the files, in whatever order. -/
theorem Totals.eq_of_perm :
    r.fileCount = r'.fileCount ∧ r.total = r'.total ∧ r.languages = r'.languages := by
  refine ⟨?_, ?_, ?_⟩
  · rw [h.fileCount, h'.fileCount]
    simpa using hperm.length_eq
  · have hstats := (hperm.map Prod.snd).sum_eq
    rw [List.map_map, List.map_map] at hstats
    rw [h.total, h'.total]
    exact hstats
  · have hmem : ∀ l, l ∈ r.languages ↔ l ∈ r'.languages := fun l =>
      ⟨h.mem_of_perm h' hperm, h'.mem_of_perm h hperm.symm⟩
    refine List.Perm.eq_of_pairwise ?_ h.increasing h'.increasing
      ((List.perm_ext_iff_of_nodup h.nodup h'.nodup).2 hmem)
    intro l l' _ _ hlt hgt
    exact absurd hlt (List.lt_asymm hgt)

end

end CountResult

/-! ## Outcomes -/

/-- The outcomes are the same but for the spelling of the path. -/
inductive FileOutcome.Alike : FileOutcome → FileOutcome → Prop where
  | counted {file file' : FileStats} {name : String} :
      file.path.components = file'.path.components → file.language = file'.language →
      file.stats = file'.stats → Alike (.counted file name) (.counted file' name)
  | skipped {path path' : Path} : path.components = path'.components →
      Alike (.skipped path) (.skipped path')
  | failed {error error' : FileError} : error.path.components = error'.path.components →
      Alike (.failed error) (.failed error')

/-- What is told alike of outcomes that are alike is told alike of lists of them. -/
theorem FileOutcome.filterMap_eq_of_alike {α : Type} {part : FileOutcome → Option α}
    (hpart : ∀ o o', Alike o o' → part o = part o') {outcomes outcomes' : List FileOutcome}
    (h : List.Forall₂ Alike outcomes outcomes') :
    outcomes.filterMap part = outcomes'.filterMap part := by
  induction h with
  | nil => rfl
  | cons halike _ ih => rw [List.filterMap_cons, List.filterMap_cons, hpart _ _ halike, ih]

namespace FileTree

variable {t : FileTree} {registry : Registry} {policy : HeaderPolicy} {forced : Option Profile}
  {p q : Path} {found found' : List Path} {outcome : FileOutcome} {outcomes : List FileOutcome}

/-- The language of a file goes by its last component. -/
theorem languageOf_eq_of_components_eq (h : p.components = q.components) :
    languageOf registry forced p = languageOf registry forced q := by
  rw [languageOf, languageOf, Registry.resolvePath, Registry.resolvePath,
    Path.fileName?_eq_of_components_eq h]
  cases (q.fileName?.bind Name.text?).bind registry.byFileName? with
  | none | some => rfl

/-- What becomes of a file does not depend on the spelling of its path. -/
theorem exists_outcome_alike (h : p.components = q.components) (hp : Plain p) (hq : Plain q)
    (ho : t.outcome registry policy forced p = .ok outcome) :
    ∃ outcome', t.outcome registry policy forced q = .ok outcome' ∧ outcome.Alike outcome' := by
  have hlanguages : languageOf registry forced q = languageOf registry forced p :=
    (languageOf_eq_of_components_eq h).symm
  have hreads : t.read q = t.read p := (read_eq_of_components_eq h hp hq).symm
  rcases outcome_eq_ok_iff.1 ho with
    ⟨hlanguage, rfl⟩ | ⟨profile, hlanguage, ⟨file, hcount, rfl⟩ | ⟨failure, hread, rfl⟩⟩
  · exact ⟨_, outcome_eq_ok_iff.2 (.inl ⟨hlanguages.trans hlanguage, rfl⟩), .skipped h⟩
  · obtain ⟨bytes, report, hread, hreport, rfl⟩ := countAs_eq_ok_iff.1 hcount
    have hcount' := countAs_eq_ok_iff.2 ⟨bytes, report, hreads.trans hread, hreport, rfl⟩
    refine ⟨.counted ⟨q, profile.id, report.counts, report.warnings⟩ profile.name,
      outcome_eq_ok_iff.2 (.inr ?_), .counted h rfl rfl⟩
    exact ⟨profile, hlanguages.trans hlanguage, .inl ⟨_, hcount', rfl⟩⟩
  · refine ⟨.failed ⟨q, (Error.unreadableFile q failure).message⟩,
      outcome_eq_ok_iff.2 (.inr ?_), .failed h⟩
    exact ⟨profile, hlanguages.trans hlanguage, .inr ⟨failure, hreads.trans hread, rfl⟩⟩

/-- So it is for files in order. -/
theorem Outcomes.exists_alike (h : t.Outcomes registry policy forced found outcomes)
    (hsame : List.Forall₂ (fun p q => p.components = q.components) found found')
    (hfound : ∀ p ∈ found, Plain p) (hfound' : ∀ q ∈ found', Plain q) :
    ∃ outcomes', t.Outcomes registry policy forced found' outcomes' ∧
      List.Forall₂ FileOutcome.Alike outcomes outcomes' := by
  induction hsame generalizing outcomes with
  | nil =>
    cases h
    exact ⟨[], .nil, .nil⟩
  | cons hpath _ ih =>
    cases h with
    | cons ho hrest =>
      obtain ⟨hp, hfound⟩ := List.forall_mem_cons.1 hfound
      obtain ⟨hq, hfound'⟩ := List.forall_mem_cons.1 hfound'
      obtain ⟨outcome', ho', halike⟩ := exists_outcome_alike hpath hp hq ho
      obtain ⟨outcomes', hrest', hall⟩ := ih hrest hfound hfound'
      exact ⟨outcome' :: outcomes', .cons ho' hrest', .cons halike hall⟩

/-- So it is for files in any order. -/
theorem Outcomes.exists_of_perm (h : t.Outcomes registry policy forced found outcomes)
    (hperm : (found.map Path.components).Perm (found'.map Path.components))
    (hfound : ∀ p ∈ found, Plain p) (hfound' : ∀ q ∈ found', Plain q) :
    ∃ outcomes' alike, t.Outcomes registry policy forced found' outcomes' ∧
      List.Forall₂ FileOutcome.Alike outcomes alike ∧ alike.Perm outcomes' := by
  -- the files that were found second, in the order in which they were found first
  have hself : List.Forall₂ (fun components q => components = Path.components q)
      (found'.map Path.components) found' :=
    List.forall₂_map_left_iff.2 (List.forall₂_same.2 fun _ _ => rfl)
  obtain ⟨ordered, hordered, hperm'⟩ := List.perm_comp_forall₂ hperm hself
  obtain ⟨alike, halike, hall⟩ := h.exists_alike (List.forall₂_map_left_iff.1 hordered) hfound
    fun q hq => hfound' q (hperm'.mem_iff.1 hq)
  obtain ⟨outcomes', houtcomes', hperm''⟩ := List.perm_comp_forall₂ hperm'.symm halike
  exact ⟨outcomes', alike, houtcomes', hall, hperm''.symm⟩

end FileTree

namespace FileOutcome

variable {outcomes alike outcomes' : List FileOutcome}

theorem item?_eq_of_alike (o o' : FileOutcome) (h : Alike o o') : o.item? = o'.item? := by
  cases h with
  | counted _ hlanguage hstats => rw [item?, item?, hlanguage, hstats]
  | skipped | failed => rfl

/-- What is told alike of outcomes that are alike is told but for the order. -/
theorem perm_filterMap {α : Type} {part : FileOutcome → Option α}
    (hpart : ∀ o o', Alike o o' → part o = part o') (h : List.Forall₂ Alike outcomes alike)
    (hperm : alike.Perm outcomes') :
    (outcomes.filterMap part).Perm (outcomes'.filterMap part) := by
  rw [filterMap_eq_of_alike hpart h]
  exact hperm.filterMap part

/-- So are the components of the paths. -/
theorem perm_map_components {α : Type} {part : FileOutcome → Option α} (pathOf : α → Path)
    (hpart : ∀ o o', Alike o o' →
      (part o).map (fun a => (pathOf a).components) = (part o').map fun a => (pathOf a).components)
    (h : List.Forall₂ Alike outcomes alike) (hperm : alike.Perm outcomes') :
    ((outcomes.filterMap part).map fun a => (pathOf a).components).Perm
      ((outcomes'.filterMap part).map fun a => (pathOf a).components) := by
  rw [List.map_filterMap, List.map_filterMap]
  exact perm_filterMap hpart h hperm

end FileOutcome

namespace CountResult

variable {outcomes alike outcomes' : List FileOutcome} {r r' : CountResult}

/-- If outcomes add up, others that are alike do so too, in whatever order. -/
theorem exists_ofOutcomes (hr : ofOutcomes outcomes = .ok r)
    (h : List.Forall₂ FileOutcome.Alike outcomes alike) (hperm : alike.Perm outcomes') :
    ∃ r', ofOutcomes outcomes' = .ok r' := by
  obtain ⟨tally, hadd, -⟩ := ofOutcomes_eq_ok_iff.1 hr
  have hitems := FileOutcome.perm_filterMap FileOutcome.item?_eq_of_alike h hperm
  have hfits : Tally.Fits (outcomes.filterMap FileOutcome.item?) :=
    Tally.exists_addAll_iff.1 ⟨tally, hadd⟩
  obtain ⟨tally', hadd'⟩ := Tally.exists_addAll_iff.2 (hfits.perm hitems)
  exact ⟨_, ofOutcomes_eq_ok_iff.2 ⟨tally', hadd', rfl⟩⟩

/-- The results of outcomes that are alike, in whatever order, are alike, called off or not. -/
theorem alike_ofOutcomes {registry : Registry} (hr : ofOutcomes outcomes = .ok r)
    (hr' : ofOutcomes outcomes' = .ok r') (htotals : r.Totals registry)
    (htotals' : r'.Totals registry) (h : List.Forall₂ FileOutcome.Alike outcomes alike)
    (hperm : alike.Perm outcomes') (cancelled : Bool) :
    Alike { r with cancelled := cancelled } { r' with cancelled := cancelled } := by
  obtain ⟨tally, -, rfl⟩ := ofOutcomes_eq_ok_iff.1 hr
  obtain ⟨tally', -, rfl⟩ := ofOutcomes_eq_ok_iff.1 hr'
  have hitems := (FileOutcome.perm_filterMap FileOutcome.item?_eq_of_alike h hperm).map
    fun item => (item.language, item.counts)
  rw [FileOutcome.map_item?, FileOutcome.map_item?] at hitems
  obtain ⟨hcount, htotal, hlanguages⟩ := htotals.eq_of_perm htotals' hitems
  refine ⟨hcount, htotal, hlanguages, ?_, ?_, ?_, rfl⟩
  · refine FileOutcome.perm_map_components FileStats.path (fun o o' halike => ?_) h hperm
    cases halike with
    | counted hpath => exact congrArg some hpath
    | skipped | failed => rfl
  · refine FileOutcome.perm_map_components id (fun o o' halike => ?_) h hperm
    cases halike with
    | skipped hpath => exact congrArg some hpath
    | counted | failed => rfl
  · refine FileOutcome.perm_map_components FileError.path (fun o o' halike => ?_) h hperm
    cases halike with
    | failed hpath => exact congrArg some hpath
    | counted | skipped => rfl

end CountResult

/-! ## Counting -/

namespace FileTree

variable {t : FileTree} {registry : Registry} {options : CountOptions} {paths paths' : List Path}
  {r : CountResult} {raised : Path → Bool}

/-- Where entries have names, every path that is discovered is plain. -/
theorem plain_of_mem_discoverAll {filter : Filter} {found : List Path} (named : t.Named)
    (h : t.discoverAll filter paths = .ok found) : ∀ q ∈ found, Plain q := by
  intro q hq
  obtain ⟨p, -, files, hfiles, hq⟩ := exists_discover_of_mem h hq
  exact plain_of_mem_discover named hfiles hq

/-- Paths that can be discovered can be discovered in any order. -/
theorem exists_discoverAll_of_same {filter : Filter} {found : List Path}
    (same : ∀ p, p ∈ paths ↔ p ∈ paths') (h : t.discoverAll filter paths = .ok found) :
    ∃ found', t.discoverAll filter paths' = .ok found' := by
  rw [exists_discoverAll_iff]
  intro p hp
  exact exists_discoverAll_iff.1 ⟨found, h⟩ p ((same p).2 hp)

/-- If the flag goes by components, it is raised at the same files, in whatever order and however
these are spelled. -/
theorem perm_components_taken {found found' : List Path}
    (spelling : ∀ p q, p.components = q.components → raised p = raised q)
    (hperm : (found.map Path.components).Perm (found'.map Path.components)) :
    ((found.filter (!raised ·)).map Path.components).Perm
        ((found'.filter (!raised ·)).map Path.components) ∧
      found.any raised = found'.any raised := by
  obtain ⟨flag, rfl⟩ := (Function.factorsThrough_iff raised).1 fun p q => spelling p q
  constructor
  · have htaken := hperm.filter (!flag ·)
    rwa [List.filter_map, List.filter_map] at htaken
  · have hany := hperm.any_eq (f := flag)
    rwa [List.any_map, List.any_map] at hany

/-- A count of the same paths succeeds too, with a result that is alike. -/
theorem exists_count_alike (named : t.Named) (built : registry.Built)
    (same : ∀ p, p ∈ paths ↔ p ∈ paths')
    (spelling : ∀ p q, p.components = q.components → raised p = raised q)
    (h : t.count registry options paths raised = .ok r) :
    ∃ r', t.count registry options paths' raised = .ok r' ∧ r.Alike r' := by
  obtain ⟨forced, found, outcomes, taken, hforced, hfound, houtcomes, htaken, rfl⟩ :=
    count_raised_eq_ok_iff.1 h
  obtain ⟨found', hfound'⟩ := exists_discoverAll_of_same same hfound
  obtain ⟨hpaths, hany⟩ :=
    perm_components_taken spelling (perm_components_discoverAll same hfound hfound')
  obtain ⟨outcomes', alike, houtcomes', hall, hperm⟩ := houtcomes.exists_of_perm hpaths
    (fun p hp => plain_of_mem_discoverAll named hfound p (List.mem_of_mem_filter hp))
    (fun q hq => plain_of_mem_discoverAll named hfound' q (List.mem_of_mem_filter hq))
  obtain ⟨taken', htaken'⟩ := CountResult.exists_ofOutcomes htaken hall hperm
  have hlanguage := mem_of_forcedLanguage hforced
  refine ⟨{ taken' with cancelled := found'.any raised }, count_raised_eq_ok_iff.2
    ⟨forced, found', outcomes', taken', hforced, hfound', houtcomes', htaken', rfl⟩, ?_⟩
  rw [hany]
  exact CountResult.alike_ofOutcomes htaken htaken' (houtcomes.totals built hlanguage htaken)
    (houtcomes'.totals built hlanguage htaken') hall hperm _

/-- A count depends on which paths are given and not on their order or on how often each is given.
It succeeds or fails as another count of the same paths does, also if both are called off at the
same files, and the results are the same but for the order and the spelling of the paths. -/
theorem count_of_same_paths (named : t.Named) (built : registry.Built)
    (same : ∀ p, p ∈ paths ↔ p ∈ paths') (options : CountOptions) (raised : Path → Bool)
    (spelling : ∀ p q, p.components = q.components → raised p = raised q) :
    ((∃ r, t.count registry options paths raised = .ok r) ↔
      ∃ r', t.count registry options paths' raised = .ok r') ∧
    ∀ r r', t.count registry options paths raised = .ok r →
      t.count registry options paths' raised = .ok r' → r.Alike r' := by
  refine ⟨⟨?_, ?_⟩, ?_⟩
  · rintro ⟨r, h⟩
    obtain ⟨r', h', -⟩ := exists_count_alike named built same spelling h
    exact ⟨r', h'⟩
  · rintro ⟨r', h'⟩
    obtain ⟨r, h, -⟩ := exists_count_alike named built (fun p => (same p).symm) spelling h'
    exact ⟨r, h⟩
  · intro r r' h h'
    obtain ⟨r'', h'', halike⟩ := exists_count_alike named built same spelling h
    cases h'.symm.trans h''
    exact halike

/-- The flag is raised at the files of one name. -/
def raisedAt (name : Name) (p : Path) : Bool :=
  p.fileName? == some name

theorem count_mixed_raised :
    mixed.count (History.ofCalls [.register .curly]).registry {} [".", "./."]
        (raisedAt "b.c") = .ok {
      fileCount := 1
      total := { code := 1, comment := 1, total := 2 }
      languages := [⟨"c", "C", 1, { code := 1, comment := 1, total := 2 }⟩]
      files := [⟨"./a.c", "c", { code := 1, comment := 1, total := 2 },
        [.unterminatedString 1, .unterminatedBlock 2]⟩]
      skipped := ["./notes"]
      cancelled := true } := by
  obtain ⟨hcounted, -, hskipped⟩ := outcome_mixed
  have htaken : [Path.ofText "./a.c", "./b.c", "./notes"].filter (!raisedAt "b.c" ·) =
      [Path.ofText "./a.c", "./notes"] := by decide
  have houtcomes : mixed.Outcomes _ _ _ _ _ := .cons hcounted (.cons hskipped .nil)
  rw [← htaken] at houtcomes
  exact count_raised_eq_ok_iff.2
    ⟨none, _, _, _, rfl, discoverAll_mixed, houtcomes, rfl, rfl⟩

/-- The first path to a directory is the one by which its files are told, and a count that is called
off at a file takes the others. -/
theorem count_of_same_paths_mixed :
    mixed.Named ∧ (History.ofCalls [.register .curly]).registry.Built ∧
    mixed.discoverAll {} ["./.", ".", "./."] = .ok ["././a.c", "././b.c", "././notes"] ∧
    (∃ r r' : CountResult,
      mixed.count (History.ofCalls [.register .curly]).registry {} [".", "./."] = .ok r ∧
      mixed.count (History.ofCalls [.register .curly]).registry {} ["./.", ".", "./."] = .ok r' ∧
      r.Alike r' ∧ r'.languages = [⟨"c", "C", 1, { code := 1, comment := 1, total := 2 }⟩] ∧
      r'.skipped.length = 1 ∧ r'.errors.length = 1) ∧
    ∃ r' : CountResult,
      mixed.count (History.ofCalls [.register .curly]).registry {} ["./.", ".", "./."]
        (raisedAt "b.c") = .ok r' ∧
      r'.skipped.length = 1 ∧ r'.errors.length = 0 ∧ r'.cancelled = true := by
  have hmade : mixed = (((({} : FileTree).enter "/").insertAt "a.c"
      (.file [34, 98, 10, 47, 42])).insertAt "b.c" .unreadable).insertAt "notes"
      (.file [120]) := by decide
  have named : mixed.Named := by
    rw [hmade]
    exact ((((Made.empty.enter _).insertAt _ _).insertAt _ _).insertAt _ _).named
  have built : (History.ofCalls [.register .curly]).registry.Built := ⟨_, rfl⟩
  have same : ∀ p, p ∈ [Path.ofText ".", "./."] ↔ p ∈ [Path.ofText "./.", ".", "./."] := by
    intro p
    simp only [List.mem_cons, List.not_mem_nil, or_false]
    tauto
  have spelling : ∀ p q, p.components = q.components → raisedAt "b.c" p = raisedAt "b.c" q := by
    intro p q h
    rw [raisedAt, raisedAt, Path.fileName?_eq_of_components_eq h]
  obtain ⟨hboth, halike⟩ :=
    count_of_same_paths named built same {} (fun _ => false) fun _ _ _ => rfl
  obtain ⟨r', h'⟩ := hboth.1 ⟨_, count_mixed⟩
  have halike := halike _ r' count_mixed h'
  obtain ⟨hraised, hsome⟩ := count_of_same_paths named built same {} _ spelling
  obtain ⟨s, hs⟩ := hraised.1 ⟨_, count_mixed_raised⟩
  have hsome := hsome _ s count_mixed_raised hs
  refine ⟨named, built, by cbv, ⟨_, r', count_mixed, h', halike, halike.languages.symm, ?_, ?_⟩,
    s, hs, ?_, ?_, hsome.cancelled.symm⟩
  · simpa using halike.skipped.length_eq.symm
  · simpa using halike.errors.length_eq.symm
  · simpa using hsome.skipped.length_eq.symm
  · simpa using hsome.errors.length_eq.symm

end FileTree

end SourceTally
