import SourceTally.Proofs.Count.Paths
import SourceTally.Proofs.FileTree.Linkless

/-!
# Files that are found once

Paths that are discovered differ in their components, which does not mean that they lead to
different files: `src` and `./src` lead to the same files by paths that differ. In a tree without
links it is known when that happens. If a file is discovered from two of the given paths, one of
them leads to a place at or below the other (`FileTree.Linkless.exists_between`), and the file is
found under one path just if the components of the lower path go on from those of the upper one by
the names between them (`FileTree.Linkless.components_eq_iff`). So it is when all of the given paths
that share a file are spelled that way (`FileTree.Aligned`), which for relative paths without double
dots means that all or none of them begin with a dot. `FileTree.discoverAll_once_iff` puts this
together.
-/

namespace SourceTally.FileTree

/-- A file is discovered from two paths, under a path of its own from each. -/
structure Shares (t : FileTree) (filter : Filter) (p q f f' : Path) : Prop where
  first : ∃ files, t.discover filter p = .ok files ∧ f ∈ files
  second : ∃ files, t.discover filter q = .ok files ∧ f' ∈ files
  same : t.resolve f = t.resolve f'

/-- Some file is discovered from both paths. -/
def Meet (t : FileTree) (filter : Filter) (p q : Path) : Prop :=
  ∃ f f', t.Shares filter p q f f'

/-- Of paths that share a file, where one leads to a place at or below the other, the components go
on by the names between the places. -/
def Aligned (t : FileTree) (filter : Filter) (paths : List Path) : Prop :=
  ∀ p ∈ paths, ∀ q ∈ paths, t.Meet filter p q → ∀ (directory : Location) (between : List Name),
    t.resolve p = .ok directory → t.resolve q = .ok (between.reverse ++ directory) →
    q.components = p.components ++ between.map .name

variable {t : FileTree} {filter : Filter} {p q f f' : Path} {paths found : List Path}
  {directory : Location} {between : List Name}

theorem Shares.symm (h : t.Shares filter p q f f') : t.Shares filter q p f' f :=
  ⟨h.second, h.first, h.same.symm⟩

namespace Linkless

/-- Of two paths that share a file one leads to a place at or below the other. -/
theorem exists_between (h : t.Linkless) (wellFormed : t.WellFormed)
    (hshares : t.Shares filter p q f f') : ∃ (directory : Location) (between : List Name),
      t.resolve p = .ok directory ∧ t.resolve q = .ok (between.reverse ++ directory) ∨
      t.resolve q = .ok directory ∧ t.resolve p = .ok (between.reverse ++ directory) := by
  obtain ⟨⟨files, hfiles, hf⟩, ⟨files', hfiles', hf'⟩, hsame⟩ := hshares
  obtain ⟨place, names, hp, -, hfile, -⟩ := h.exists_names_of_mem_discover wellFormed hfiles hf
  obtain ⟨place', names', hq, -, hfile', -⟩ := h.exists_names_of_mem_discover wellFormed hfiles' hf'
  have hlocation : names.reverse ++ place = names'.reverse ++ place' :=
    Except.ok.inj (hfile.symm.trans (hsame.trans hfile'))
  rcases List.append_eq_append_iff.1 hlocation with ⟨between, -, rfl⟩ | ⟨between, -, rfl⟩
  · exact ⟨place', between.reverse, .inr ⟨hq, by rw [List.reverse_reverse, hp]⟩⟩
  · exact ⟨place, between.reverse, .inl ⟨hp, by rw [List.reverse_reverse, hq]⟩⟩

/-- A file that is shared has one path just if the components of the lower path go on from those of
the upper one. -/
theorem components_eq_iff (h : t.Linkless) (wellFormed : t.WellFormed)
    (hshares : t.Shares filter p q f f') (hp : t.resolve p = .ok directory)
    (hq : t.resolve q = .ok (between.reverse ++ directory)) :
    f.components = f'.components ↔ q.components = p.components ++ between.map .name := by
  obtain ⟨⟨files, hfiles, hf⟩, ⟨files', hfiles', hf'⟩, hsame⟩ := hshares
  obtain ⟨place, names, hplace, hnames, hfile, -⟩ :=
    h.exists_names_of_mem_discover wellFormed hfiles hf
  obtain ⟨place', names', hplace', hnames', hfile', -⟩ :=
    h.exists_names_of_mem_discover wellFormed hfiles' hf'
  cases hp.symm.trans hplace
  cases hq.symm.trans hplace'
  -- the names down from the upper path lead through the lower one
  have hthrough : names = between ++ names' := by
    have hlocation := Except.ok.inj (hfile.symm.trans (hsame.trans hfile'))
    rw [← List.append_assoc, ← List.reverse_append] at hlocation
    exact List.reverse_inj.1 (List.append_cancel_right hlocation)
  rw [hnames, hnames', hthrough, List.map_append, ← List.append_assoc, List.append_cancel_right_eq]
  exact eq_comm

/-- What is discovered are different files just if the paths are aligned. -/
theorem nodup_resolve_iff (h : t.Linkless) (wellFormed : t.WellFormed)
    (hfound : t.discoverAll filter paths = .ok found) :
    (found.map t.resolve).Nodup ↔ t.Aligned filter paths := by
  have hplain := plain_of_mem_discoverAll wellFormed.named hfound
  constructor
  · rintro hnodup p hp q hq ⟨f, f', hshares⟩ directory between hupper hlower
    rw [← h.components_eq_iff wellFormed hshares hupper hlower]
    -- of both paths of the file a spelling was kept, and it is one spelling
    have hkept : ∀ p ∈ paths, ∀ f, (∃ files, t.discover filter p = .ok files ∧ f ∈ files) →
        ∃ g ∈ found, g.components = f.components ∧ t.resolve g = t.resolve f := by
      rintro p hp f ⟨files, hfiles, hf⟩
      obtain ⟨g, hg, heq⟩ := List.mem_map.1 ((mem_components_discoverAll_iff hfound).2
        ⟨p, hp, files, hfiles, List.mem_map_of_mem hf⟩)
      have hf := plain_of_mem_discover wellFormed.named hfiles hf
      exact ⟨g, hg, heq, resolve_eq_of_components_eq heq (hplain g hg) hf⟩
    obtain ⟨g, hg, hcomponents, hresolve⟩ := hkept p hp f hshares.first
    obtain ⟨g', hg', hcomponents', hresolve'⟩ := hkept q hq f' hshares.second
    have hsame : g = g' := by
      refine List.inj_on_of_nodup_map hnodup hg hg' ?_
      rw [hresolve, hresolve', hshares.same]
    rw [← hcomponents, ← hcomponents', hsame]
  · intro haligned
    refine List.pairwise_map.2 ((pairwise_discoverAll hfound).imp_of_mem ?_)
    intro f f' hf hf' hne hsame
    refine hne ?_
    obtain ⟨p, hp, hfirst⟩ := exists_discover_of_mem hfound hf
    obtain ⟨q, hq, hsecond⟩ := exists_discover_of_mem hfound hf'
    have hshares : t.Shares filter p q f f' := ⟨hfirst, hsecond, hsame⟩
    obtain ⟨directory, between, ⟨hupper, hlower⟩ | ⟨hupper, hlower⟩⟩ :=
      h.exists_between wellFormed hshares
    · rw [h.components_eq_iff wellFormed hshares hupper hlower]
      exact haligned p hp q hq ⟨f, f', hshares⟩ directory between hupper hlower
    · rw [eq_comm, h.components_eq_iff wellFormed hshares.symm hupper hlower]
      exact haligned q hq p hp ⟨f', f, hshares.symm⟩ directory between hupper hlower

/-! ## Relative paths without double dots -/

/-- The components of a lower path go on from those of an upper one if both paths begin with a dot
or neither does. -/
theorem components_eq_append_iff (h : t.Linkless)
    (hp : t.resolve p = .ok directory) (hq : t.resolve q = .ok (between.reverse ++ directory))
    (hplainp : p.isAbsolute = false ∧ .parent ∉ p.components)
    (hplainq : q.isAbsolute = false ∧ .parent ∉ q.components) :
    q.components = p.components ++ between.map .name ↔ (p.Dotted ↔ q.Dotted) := by
  obtain ⟨names, hnames, hlocation⟩ := h.exists_names_of_resolve hp hplainp.1 hplainp.2
  obtain ⟨names', hnames', hlocation'⟩ := h.exists_names_of_resolve hq hplainq.1 hplainq.2
  constructor
  · intro hcomponents
    have hne : p.components ≠ [] := mt Path.components_eq_nil_iff.1 (h.follow_of_resolve hp).1
    rw [Path.Dotted, Path.Dotted, hcomponents, List.head?_append_of_ne_nil _ hne]
  · intro hdotted
    have hthrough : names' = names ++ between := by
      rw [hlocation, ← List.append_assoc, ← List.reverse_append] at hlocation'
      exact (List.reverse_inj.1 (List.append_cancel_right hlocation')).symm
    rw [hnames', hnames, hthrough, List.map_append, List.append_assoc]
    simp only [hdotted]

/-- Relative paths without double dots are aligned if, of those that share a file, all begin with a
dot or none does. -/
theorem aligned_iff_dotted (h : t.Linkless) (wellFormed : t.WellFormed)
    (hplain : ∀ p ∈ paths, p.isAbsolute = false ∧ .parent ∉ p.components) :
    t.Aligned filter paths ↔
      ∀ p ∈ paths, ∀ q ∈ paths, t.Meet filter p q → (p.Dotted ↔ q.Dotted) := by
  constructor
  · rintro haligned p hp q hq ⟨f, f', hshares⟩
    obtain ⟨directory, between, ⟨hupper, hlower⟩ | ⟨hupper, hlower⟩⟩ :=
      h.exists_between wellFormed hshares
    · refine (h.components_eq_append_iff hupper hlower (hplain p hp) (hplain q hq)).1 ?_
      exact haligned p hp q hq ⟨f, f', hshares⟩ directory between hupper hlower
    · refine ((h.components_eq_append_iff hupper hlower (hplain q hq) (hplain p hp)).1 ?_).symm
      exact haligned q hq p hp ⟨f', f, hshares.symm⟩ directory between hupper hlower
  · intro hdotted p hp q hq hmeet directory between hupper hlower
    rw [h.components_eq_append_iff hupper hlower (hplain p hp) (hplain q hq)]
    exact hdotted p hp q hq hmeet

end Linkless

/-! ## A sample -/

theorem made_nested : nested.Made := by
  have hmade : nested = ({} : FileTree).insertAt "src/main.c" (.file [120]) := by decide
  rw [hmade]
  exact Made.empty.insertAt _ _

theorem linkless_nested : nested.Linkless := by
  refine linkless_of_forall_mem fun entry hentry target => ?_
  rcases List.mem_cons.1 hentry with rfl | hentry
  · exact Entry.noConfusion
  · obtain rfl := List.mem_singleton.1 hentry
    exact Entry.noConfusion

/-- The file is counted under either path. -/
theorem outcome_nested {path : Path} (hpath : path = "src/main.c" ∨ path = "./src/main.c") :
    nested.outcome (History.ofCalls [.register .curly]).registry {} none path =
      .ok (.counted ⟨path, "c", { code := 1, total := 1 }, []⟩ "C") := by
  have hregistry : (History.ofCalls [.register .curly]).registry =
      { profiles := [.curly], idIndex := [("c", 0)], extensionIndex := [("c", 0)] } := by cbv
  have hresolve : nested.resolve path = .ok ["main.c", "src"] := by
    rcases hpath with rfl | rfl
    · exact resolve_nested.2.2.1
    · exact resolve_nested.2.2.2
  have hlanguage : languageOf (History.ofCalls [.register .curly]).registry none path =
      some .curly := by
    rw [hregistry]
    rcases hpath with rfl | rfl
    · cbv
    · cbv
  have hread : nested.read path = .ok [120] := by
    rw [read, hresolve]
    rfl
  have hcount : nested.countAs {} .curly path =
      .ok ⟨path, "c", { code := 1, total := 1 }, []⟩ := by
    rw [countAs_of_read hread]
    cbv
  exact outcome_eq_ok_iff.2 (.inr ⟨.curly, hlanguage, .inl ⟨_, hcount, rfl⟩⟩)

theorem discoverAll_nested : nested.discoverAll {} ["src", "./src"] =
    .ok ["src/main.c", "./src/main.c"] :=
  discoverAll_eq_ok_iff.2 ⟨_, .cons discover_nested.1 (.cons discover_nested.2.1 .nil), by decide⟩

theorem count_nested :
    nested.count (History.ofCalls [.register .curly]).registry {} ["src", "./src"] = .ok {
      fileCount := 2
      total := { code := 2, total := 2 }
      languages := [⟨"c", "C", 2, { code := 2, total := 2 }⟩]
      files := [⟨"src/main.c", "c", { code := 1, total := 1 }, []⟩,
        ⟨"./src/main.c", "c", { code := 1, total := 1 }, []⟩] } :=
  count_eq_ok_iff.2 ⟨none, _, _, rfl, discoverAll_nested,
    .cons (outcome_nested (.inl rfl)) (.cons (outcome_nested (.inr rfl)) .nil), rfl⟩

/-! ## Discovering and counting -/

/-- From paths of a tree without links files are discovered, and they are different files just if
the paths are aligned: of relative paths without double dots, if those that share a file all begin
with a dot or none does. If they are, a count takes each file once, and the totals are those of the
files that it takes. -/
theorem discoverAll_once_iff (made : t.Made) (linkless : t.Linkless)
    (exist : ∀ p ∈ paths, t.pathExists p = true) (filter : Filter) :
    ∃ found, t.discoverAll filter paths = .ok found ∧ (∀ f ∈ found, t.isFile f = true) ∧
      ((found.map t.resolve).Nodup ↔ t.Aligned filter paths) ∧
      ((∀ p ∈ paths, p.isAbsolute = false ∧ .parent ∉ p.components) →
        (t.Aligned filter paths ↔
          ∀ p ∈ paths, ∀ q ∈ paths, t.Meet filter p q → (p.Dotted ↔ q.Dotted))) ∧
      (t.Aligned filter paths → ∀ (registry : Registry) (options : CountOptions) (r : CountResult),
        registry.Built → options.filter = filter → t.count registry options paths = .ok r →
        (r.files.map fun file => t.resolve file.path).Nodup ∧ r.Totals registry) := by
  have wellFormed := made.wellFormed
  obtain ⟨found, hfound⟩ := exists_discoverAll_iff.2 fun p hp =>
    exists_discover_of_pathExists (exist p hp)
  have hnodup := linkless.nodup_resolve_iff wellFormed hfound
  refine ⟨found, hfound, fun f hf => ?_, hnodup, linkless.aligned_iff_dotted wellFormed, ?_⟩
  · obtain ⟨p, -, files, hfiles, hf⟩ := exists_discover_of_mem hfound hf
    obtain ⟨-, -, -, -, -, hfile⟩ := linkless.exists_names_of_mem_discover wellFormed hfiles hf
    exact hfile
  · intro haligned registry options r built hfilter hcount
    obtain ⟨forced, found', outcomes, hforced, hfound', houtcomes, hr⟩ := count_eq_ok_iff.1 hcount
    rw [hfilter] at hfound'
    cases hfound.symm.trans hfound'
    refine ⟨?_, houtcomes.totals built (mem_of_forcedLanguage hforced) hr⟩
    have hfiles := (houtcomes.accounts hr).files.map t.resolve
    rw [List.map_map] at hfiles
    exact (hnodup.2 haligned).sublist hfiles

/-- A directory is given along with the file in it, which is counted once. -/
theorem discoverAll_once_nested :
    nested.Made ∧ nested.Linkless ∧
    (∀ p ∈ [("src" : Path), "src/main.c"], nested.pathExists p = true) ∧
    nested.Aligned {} ["src", "src/main.c"] ∧
    ∃ r : CountResult,
      nested.count (History.ofCalls [.register .curly]).registry {} ["src", "src/main.c"] =
        .ok r ∧
      (r.files.map fun file => nested.resolve file.path).Nodup ∧ r.fileCount = 1 ∧
      r.total = { code := 1, total := 1 } := by
  have exist : ∀ p ∈ [("src" : Path), "src/main.c"], nested.pathExists p = true := by
    simp [pathExists, resolve_nested, Except.isOk, Except.toBool]
  have hplain : ∀ p ∈ [("src" : Path), "src/main.c"],
      p.isAbsolute = false ∧ .parent ∉ p.components := by decide
  have hdotted : ∀ p ∈ [("src" : Path), "src/main.c"], ¬ p.Dotted := by decide
  obtain ⟨found, -, -, -, hrelative, honce⟩ :=
    discoverAll_once_iff made_nested linkless_nested exist {}
  have haligned := (hrelative hplain).2 fun p hp q hq _ =>
    iff_of_false (hdotted p hp) (hdotted q hq)
  have hfound : nested.discoverAll {} ["src", "src/main.c"] = .ok ["src/main.c"] :=
    discoverAll_eq_ok_iff.2 ⟨_, .cons discover_nested.1 (.cons discover_nested.2.2 .nil), by decide⟩
  have hcount : nested.count (History.ofCalls [.register .curly]).registry {}
      ["src", "src/main.c"] = .ok {
        fileCount := 1
        total := { code := 1, total := 1 }
        languages := [⟨"c", "C", 1, { code := 1, total := 1 }⟩]
        files := [⟨"src/main.c", "c", { code := 1, total := 1 }, []⟩] } :=
    count_eq_ok_iff.2 ⟨none, _, _, rfl, hfound, .cons (outcome_nested (.inl rfl)) .nil, rfl⟩
  obtain ⟨hnodup, -⟩ := honce haligned _ {} _ ⟨_, rfl⟩ rfl hcount
  exact ⟨made_nested, linkless_nested, exist, haligned, _, hcount, hnodup, rfl, rfl⟩

/-- A directory is given with a dot and without, and the file in it is counted twice. -/
theorem count_twice_nested :
    nested.Made ∧ nested.Linkless ∧
    (∀ p ∈ [("src" : Path), "./src"], p.isAbsolute = false ∧ nested.pathExists p = true) ∧
    nested.discoverAll {} ["src", "./src"] = .ok ["src/main.c", "./src/main.c"] ∧
    nested.resolve "src/main.c" = .ok ["main.c", "src"] ∧
    nested.resolve "./src/main.c" = .ok ["main.c", "src"] ∧
    ∃ r : CountResult,
      nested.count (History.ofCalls [.register .curly]).registry {} ["src", "./src"] = .ok r ∧
      r.fileCount = 2 ∧ r.total = { code := 2, total := 2 } := by
  have hrelative : ∀ p ∈ [("src" : Path), "./src"],
      p.isAbsolute = false ∧ nested.pathExists p = true := by
    have habsolute : ("src" : Path).isAbsolute = false ∧
        ("./src" : Path).isAbsolute = false := by decide
    simp [pathExists, resolve_nested, Except.isOk, Except.toBool, habsolute]
  exact ⟨made_nested, linkless_nested, hrelative, discoverAll_nested, resolve_nested.2.2.1,
    resolve_nested.2.2.2, _, count_nested, rfl, rfl⟩

end SourceTally.FileTree
