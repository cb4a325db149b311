import SourceTally.Proofs.Discovery

/-!
# The files of several paths, in the order they are first found

Of several spellings of a file the one that is found first is kept, at its place
(`Path.getElem?_firstPlace`, `Path.pairwise_firstPlace`), so files that have been found before add
nothing (`Path.distinct_append_of_found`). The first path that leads nowhere is the failure of them
all (`FileTree.discoverAll_of_missing`). `FileTree.discoverAll_in_order` says this of every list of
paths, and that a path that is given again changes nothing, not even a failure.
-/

namespace SourceTally

namespace Path

variable {p q : Path} {paths again : List Path}

/-- The place of the first of the paths with the components of `p`. -/
def firstPlace (paths : List Path) (p : Path) : Nat :=
  (paths.map components).idxOf p.components

theorem firstPlace_cons_of_eq (h : q.components = p.components) :
    firstPlace (q :: paths) p = 0 := by
  rw [firstPlace, List.map_cons, h, List.idxOf_cons_self]

theorem firstPlace_cons_of_ne (h : q.components ≠ p.components) :
    firstPlace (q :: paths) p = firstPlace paths p + 1 := by
  rw [firstPlace, List.map_cons, List.idxOf_cons_ne _ h, firstPlace]

/-- The paths kept after the first are kept from the others and differ from the first. -/
theorem mem_filter_distinct_iff :
    q ∈ (distinct paths).filter (!·.same p) ↔ q ∈ distinct paths ∧ p.components ≠ q.components := by
  rw [List.mem_filter, same, Bool.not_eq_true', beq_eq_false_iff_ne, ne_comm]

/-- A path that is kept is the first of its spellings. -/
theorem getElem?_firstPlace (h : q ∈ distinct paths) : paths[firstPlace paths q]? = some q := by
  induction paths with
  | nil => cases h
  | cons first paths ih =>
    rw [distinct_cons] at h
    rcases List.mem_cons.1 h with rfl | h
    · rw [firstPlace_cons_of_eq rfl, List.getElem?_cons_zero]
    · obtain ⟨hkept, hne⟩ := mem_filter_distinct_iff.1 h
      rw [firstPlace_cons_of_ne hne, List.getElem?_cons_succ]
      exact ih hkept

/-- The paths that are kept stand in the order of the first spellings. -/
theorem pairwise_firstPlace (paths : List Path) :
    (distinct paths).Pairwise fun p q => firstPlace paths p < firstPlace paths q := by
  induction paths with
  | nil => exact List.Pairwise.nil
  | cons first paths ih =>
    rw [distinct_cons]
    refine List.pairwise_cons.2 ⟨fun q hq => ?_, ?_⟩
    · rw [firstPlace_cons_of_eq rfl, firstPlace_cons_of_ne (mem_filter_distinct_iff.1 hq).2]
      exact Nat.succ_pos _
    · refine (ih.filter _).imp_of_mem fun hp hq hlt => ?_
      rw [firstPlace_cons_of_ne (mem_filter_distinct_iff.1 hp).2,
        firstPlace_cons_of_ne (mem_filter_distinct_iff.1 hq).2]
      exact Nat.succ_lt_succ hlt

/-- Of further paths those are kept whose components have not been found. -/
theorem distinct_append (paths more : List Path) :
    distinct (paths ++ more) =
      distinct paths ++ (distinct more).filter (·.components ∉ paths.map components) := by
  induction paths with
  | nil => simp [distinct_nil]
  | cons first paths ih =>
    rw [List.cons_append, distinct_cons, ih, distinct_cons, List.filter_append, List.filter_filter,
      List.cons_append]
    refine congrArg (fun kept => first :: (_ ++ kept)) (List.filter_congr fun q _ => ?_)
    simp [same, beq_eq_decide]

/-- Paths whose components have been found add nothing, whatever follows them. -/
theorem distinct_append_of_found (h : ∀ q ∈ again, q.components ∈ paths.map components)
    (more : List Path) :
    distinct (paths ++ (again ++ more)) = distinct (paths ++ more) := by
  have hagain : (distinct again).filter (·.components ∉ paths.map components) = [] := by
    refine List.filter_eq_nil_iff.2 fun q hq hnew => ?_
    exact of_decide_eq_true hnew (h q (mem_of_mem_distinct hq))
  rw [distinct_append, distinct_append again, List.filter_append, hagain, List.nil_append,
    List.filter_filter, distinct_append paths]
  refine congrArg _ (List.filter_congr fun q _ => ?_)
  -- a path that is new after `paths` is new after `again` as well
  by_cases hfound : q.components ∈ paths.map components
  · simp [hfound]
  · have hnew : q.components ∉ again.map components := by
      intro hmem
      obtain ⟨r, hr, hcomponents⟩ := List.mem_map.1 hmem
      exact hfound (hcomponents ▸ h r hr)
    simp [hfound, hnew]

end Path

namespace FileTree

variable {t : FileTree} {filter : Filter} {paths before after : List Path} {p : Path}

/-- A path that leads nowhere is not found. -/
theorem discover_of_missing (h : t.pathExists p = false) :
    t.discover filter p = .error (.pathNotFound p) := by
  unfold discover discoverWhere
  split
  next => rfl
  next hresolve =>
    rw [pathExists, hresolve] at h
    cases h

/-- The first path that leads nowhere is the failure, whatever is found before it. -/
theorem discoverAll_of_missing (hbefore : ∀ q ∈ before, t.pathExists q = true)
    (h : t.pathExists p = false) :
    t.discoverAll filter (before ++ p :: after) = .error (.pathNotFound p) := by
  have herror : (before ++ p :: after).mapM (t.discover filter) = .error (.pathNotFound p) :=
    mapM_eq_error_iff.2 ⟨before, p, after, rfl,
      fun q hq => exists_discover_of_pathExists (hbefore q hq), discover_of_missing h⟩
  rw [discoverAll, herror]
  rfl

/-- A path that is given again later changes nothing. -/
theorem discoverAll_again (before middle after : List Path) (p : Path) :
    t.discoverAll filter (before ++ p :: (middle ++ p :: after)) =
      t.discoverAll filter (before ++ p :: (middle ++ after)) := by
  simp only [discoverAll, List.mapM_append, List.mapM_cons]
  -- up to the first part that fails the two runs are the same
  cases before.mapM (t.discover filter) with
  | error e => rfl
  | ok found =>
    cases t.discover filter p with
    | error e => rfl
    | ok files =>
      cases middle.mapM (t.discover filter) with
      | error e => rfl
      | ok between =>
        cases after.mapM (t.discover filter) with
        | error e => rfl
        | ok rest =>
          have hfound : ∀ q ∈ files,
              q.components ∈ (found.flatten ++ (files ++ between.flatten)).map Path.components :=
            fun q hq => List.mem_map_of_mem
              (List.mem_append_right _ (List.mem_append_left _ hq))
          have hsame := Path.distinct_append_of_found hfound rest.flatten
          simpa [bind, Except.bind, pure, Except.pure] using hsame

/-- Discovery fails with the first path that leads nowhere. Where all of them lead somewhere it finds
each file of each path in one spelling and no other, each in the spelling and at the place that it
has first in the files of the paths one after another. A path that is given again later changes
nothing. -/
theorem discoverAll_in_order (t : FileTree) (filter : Filter) (paths : List Path) :
    (∀ before p after, paths = before ++ p :: after → (∀ q ∈ before, t.pathExists q = true) →
      t.pathExists p = false → t.discoverAll filter paths = .error (.pathNotFound p)) ∧
    ((∀ p ∈ paths, t.pathExists p = true) → ∃ lists found,
      List.Forall₂ (fun p files => t.discover filter p = .ok files) paths lists ∧
      t.discoverAll filter paths = .ok found ∧
      found.Pairwise (fun p q => p.components ≠ q.components) ∧
      (∀ components, components ∈ found.map Path.components ↔
        ∃ files ∈ lists, components ∈ files.map Path.components) ∧
      (∀ q ∈ found, lists.flatten[Path.firstPlace lists.flatten q]? = some q) ∧
      found.Pairwise fun p q =>
        Path.firstPlace lists.flatten p < Path.firstPlace lists.flatten q) ∧
    ∀ before p middle after, paths = before ++ p :: (middle ++ after) →
      t.discoverAll filter (before ++ p :: (middle ++ p :: after)) =
        t.discoverAll filter paths := by
  refine ⟨?_, fun hexists => ?_, ?_⟩
  · rintro before p after rfl hbefore hmissing
    exact discoverAll_of_missing hbefore hmissing
  · have hfiles : ∀ p ∈ paths, ∃ files, t.discover filter p = .ok files :=
      fun p hp => exists_discover_of_pathExists (hexists p hp)
    obtain ⟨lists, hlists⟩ := exists_mapM_eq_ok_iff.2 hfiles
    have hdiscover : List.Forall₂ (fun p files => t.discover filter p = .ok files) paths lists :=
      mapM_eq_ok_iff.1 hlists
    refine ⟨lists, Path.distinct lists.flatten, hdiscover,
      discoverAll_eq_ok_iff.2 ⟨lists, hdiscover, rfl⟩, Path.pairwise_distinct _,
      fun components => ?_, fun q => Path.getElem?_firstPlace, Path.pairwise_firstPlace _⟩
    rw [Path.mem_components_distinct_iff, List.map_flatten, List.mem_flatten]
    simp
  · rintro before p middle after rfl
    exact discoverAll_again before middle after p

/-- A directory in two spellings, a file of it, and the directory again; and a path that leads
nowhere after one that does. -/
theorem discoverAll_in_order_nested :
    (∀ p ∈ [("src" : Path), "./src", "src/main.c"], nested.pathExists p = true) ∧
    nested.pathExists "gone" = false ∧
    nested.discoverAll {} ["src", "./src", "src/main.c", "src"] =
      nested.discoverAll {} ["src", "./src", "src/main.c"] ∧
    nested.discoverAll {} ["src", "./src", "src/main.c"] =
      .ok ["src/main.c", "./src/main.c"] ∧
    nested.discoverAll {} ["src", "gone", "./src"] = .error (.pathNotFound "gone") := by
  obtain ⟨hdirectory, hdotted, hfile, -⟩ := resolve_nested
  have hexists : ∀ p ∈ [("src" : Path), "./src", "src/main.c"],
      nested.pathExists p = true := by
    simp [pathExists, hdirectory, hdotted, hfile, Except.isOk, Except.toBool]
  have hgone : nested.pathExists "gone" = false := by
    have hresolve : nested.resolve "gone" = nested.follow maxLinks [] ["gone"] := rfl
    rw [pathExists, hresolve]
    cbv
  obtain ⟨-, hfound, hagain⟩ :=
    discoverAll_in_order nested {} ["src", "./src", "src/main.c"]
  obtain ⟨lists, found, hlists, hok, -⟩ := hfound hexists
  refine ⟨hexists, hgone, hagain [] "src" ["./src", "src/main.c"] [] rfl, ?_, ?_⟩
  · obtain ⟨hsrc, hsrc', hmain⟩ := discover_nested
    refine discoverAll_eq_ok_iff.2 ⟨_, .cons hsrc (.cons hsrc' (.cons hmain .nil)), ?_⟩
    cbv
  refine (discoverAll_in_order nested {} _).1 ["src"] "gone" ["./src"] rfl ?_ hgone
  exact fun q hq => hexists q (List.mem_of_mem_take (i := 1) hq)

end FileTree

end SourceTally
