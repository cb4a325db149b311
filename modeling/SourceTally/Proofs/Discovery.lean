import SourceTally.Discovery
import SourceTally.Proofs.Basic

/-!
# What is discovered

The files of several paths are those of each of them, with one spelling kept of each file. So what
is found differs component by component (`FileTree.pairwise_discoverAll`), every path that is found
is found from one of the given paths, and of every path that is found from one of them some spelling
is kept (`FileTree.mem_components_discoverAll_iff`).
-/

namespace SourceTally

namespace Path

variable {p : Path} {paths : List Path}

/-- The paths that are kept are among the paths. -/
theorem mem_of_mem_distinct (h : p ∈ distinct paths) : p ∈ paths := by
  induction paths with
  | nil => exact h
  | cons first paths ih =>
    rw [distinct_cons] at h
    rcases List.mem_cons.1 h with rfl | h
    · exact List.mem_cons_self
    · exact List.mem_cons_of_mem _ (ih (List.mem_filter.1 h).1)

/-- The paths that are kept differ in their components. -/
theorem pairwise_distinct (paths : List Path) :
    (distinct paths).Pairwise fun p q => p.components ≠ q.components := by
  induction paths with
  | nil => exact List.Pairwise.nil
  | cons first paths ih =>
    rw [distinct_cons]
    refine List.pairwise_cons.2 ⟨fun q hq => ?_, ih.filter _⟩
    have hother : (!q.same first) = true := (List.mem_filter.1 hq).2
    intro hsame
    simp [same, hsame] at hother

/-- Of every path a spelling is kept. -/
theorem mem_components_distinct_iff {components : List Component} :
    components ∈ (distinct paths).map Path.components ↔ components ∈ paths.map Path.components := by
  induction paths with
  | nil => rfl
  | cons first paths ih =>
    rw [distinct_cons, List.map_cons, List.map_cons, List.mem_cons, List.mem_cons, ← ih]
    refine or_congr_right' fun hne => ?_
    simp only [List.mem_map, List.mem_filter]
    constructor
    · rintro ⟨q, ⟨hq, -⟩, rfl⟩
      exact ⟨q, hq, rfl⟩
    · rintro ⟨q, hq, rfl⟩
      exact ⟨q, ⟨hq, by simpa [same] using hne⟩, rfl⟩

end Path

namespace FileTree

variable {t : FileTree} {filter : Filter} {paths paths' found found' : List Path} {p q : Path}

/-- Paths that lead somewhere can be discovered. -/
theorem exists_discover_of_pathExists (h : t.pathExists p = true) :
    ∃ files, t.discover filter p = .ok files := by
  unfold discover discoverWhere
  split
  next hresolve =>
    rw [pathExists, hresolve] at h
    cases h
  next =>
    split
    · exact ⟨_, rfl⟩
    · exact ⟨_, rfl⟩

/-- Discovery succeeds when it does so for each path. -/
theorem discoverAll_eq_ok_iff :
    t.discoverAll filter paths = .ok found ↔
      ∃ lists, List.Forall₂ (fun p list => t.discover filter p = .ok list) paths lists ∧
        found = Path.distinct lists.flatten := by
  simp only [discoverAll, bind_eq_ok_iff, mapM_eq_ok_iff]
  constructor
  · rintro ⟨lists, hlists, h⟩
    exact ⟨lists, hlists, (Except.ok.inj h).symm⟩
  · rintro ⟨lists, hlists, rfl⟩
    exact ⟨lists, hlists, rfl⟩

/-- What is discovered differs component by component. -/
theorem pairwise_discoverAll (h : t.discoverAll filter paths = .ok found) :
    found.Pairwise fun p q => p.components ≠ q.components := by
  obtain ⟨lists, -, rfl⟩ := discoverAll_eq_ok_iff.1 h
  exact Path.pairwise_distinct _

/-- Nothing is discovered twice. -/
theorem nodup_discoverAll (h : t.discoverAll filter paths = .ok found) : found.Nodup :=
  (pairwise_discoverAll h).imp fun hne heq => hne (congrArg Path.components heq)

/-- Discovery succeeds when every path leads somewhere. -/
theorem exists_discoverAll_iff :
    (∃ found, t.discoverAll filter paths = .ok found) ↔
      ∀ p ∈ paths, ∃ files, t.discover filter p = .ok files := by
  rw [← exists_mapM_eq_ok_iff]
  simp only [discoverAll, bind_eq_ok_iff]
  constructor
  · rintro ⟨_, lists, hlists, -⟩
    exact ⟨lists, hlists⟩
  · rintro ⟨lists, hlists⟩
    exact ⟨_, lists, hlists, rfl⟩

/-- What is discovered is discovered from one of the paths. -/
theorem exists_discover_of_mem (h : t.discoverAll filter paths = .ok found) (hq : q ∈ found) :
    ∃ p ∈ paths, ∃ files, t.discover filter p = .ok files ∧ q ∈ files := by
  obtain ⟨lists, hlists, rfl⟩ := discoverAll_eq_ok_iff.1 h
  obtain ⟨files, hfiles, hq⟩ := List.mem_flatten.1 (Path.mem_of_mem_distinct hq)
  obtain ⟨p, hp, hdiscover⟩ := (mem_iff_of_forall₂ hlists).1 hfiles
  exact ⟨p, hp, files, hdiscover, hq⟩

/-- Of every path that is discovered from one of the paths a spelling is kept, and of no others. -/
theorem mem_components_discoverAll_iff (h : t.discoverAll filter paths = .ok found)
    {components : List Path.Component} :
    components ∈ found.map Path.components ↔ ∃ p ∈ paths, ∃ files,
      t.discover filter p = .ok files ∧ components ∈ files.map Path.components := by
  obtain ⟨lists, hlists, rfl⟩ := discoverAll_eq_ok_iff.1 h
  rw [Path.mem_components_distinct_iff, List.map_flatten, List.mem_flatten]
  simp only [List.mem_map, mem_iff_of_forall₂ hlists]
  constructor
  · rintro ⟨_, ⟨files, ⟨p, hp, hdiscover⟩, rfl⟩, hmem⟩
    exact ⟨p, hp, files, hdiscover, List.mem_map.1 hmem⟩
  · rintro ⟨p, hp, files, hdiscover, hmem⟩
    exact ⟨_, ⟨files, ⟨p, hp, hdiscover⟩, rfl⟩, List.mem_map.2 hmem⟩

/-- What is discovered from the same paths, in whatever order and number, differs in the order and
the spelling only. -/
theorem perm_components_discoverAll (same : ∀ p, p ∈ paths ↔ p ∈ paths')
    (h : t.discoverAll filter paths = .ok found) (h' : t.discoverAll filter paths' = .ok found') :
    (found.map Path.components).Perm (found'.map Path.components) := by
  refine (List.perm_ext_iff_of_nodup ?_ ?_).2 fun components => ?_
  · exact List.pairwise_map.2 (pairwise_discoverAll h)
  · exact List.pairwise_map.2 (pairwise_discoverAll h')
  · simp only [mem_components_discoverAll_iff h, mem_components_discoverAll_iff h', same]

/-! ## A sample -/

/-- A file in a directory. -/
def nested : FileTree where
  entries := [(["src"], .directory), (["main.c", "src"], .file [120])]

theorem resolve_nested : nested.resolve "src" = .ok ["src"] ∧
    nested.resolve "./src" = .ok ["src"] ∧
    nested.resolve "src/main.c" = .ok ["main.c", "src"] ∧
    nested.resolve "./src/main.c" = .ok ["main.c", "src"] := by
  have hresolve : nested.resolve "src" = nested.follow maxLinks [] ["src"] ∧
      nested.resolve "./src" = nested.follow maxLinks [] [.current, "src"] ∧
      nested.resolve "src/main.c" = nested.follow maxLinks [] ["src", "main.c"] ∧
      nested.resolve "./src/main.c" = nested.follow maxLinks [] [.current, "src", "main.c"] :=
    ⟨rfl, rfl, rfl, rfl⟩
  rw [hresolve.1, hresolve.2.1, hresolve.2.2.1, hresolve.2.2.2]
  refine ⟨?_, ?_, ?_, ?_⟩
  · cbv
  · cbv
  · cbv
  · cbv

theorem discover_nested : nested.discover {} "src" = .ok ["src/main.c"] ∧
    nested.discover {} "./src" = .ok ["./src/main.c"] ∧
    nested.discover {} "src/main.c" = .ok ["src/main.c"] := by
  obtain ⟨hdirectory, hdotted, hfile, -⟩ := resolve_nested
  refine ⟨?_, ?_, ?_⟩
  · rw [discover, discoverWhere, hdirectory]
    cbv
  · rw [discover, discoverWhere, hdotted]
    cbv
  · rw [discover, discoverWhere, hfile]
    cbv

end FileTree

end SourceTally
