import SourceTally.Error
import SourceTally.FileTree.Walk
import SourceTally.Path.Filter

/-!
# Discovering files

A path that is given leads to a file, which is taken as it is, or to a directory, whose files are
taken in order. Of several spellings of one path only the first is kept. The filter has its say on
files only: a directory that is given is walked whatever the filter says of it.
-/

namespace SourceTally

/-- The filter of the given patterns. The first pattern that is malformed is reported. -/
def Filter.compile (included excluded : List String) : Except Error Filter := do
  let included ← included.mapM Glob.compile
  let excluded ← excluded.mapM Glob.compile
  return ⟨included, excluded⟩

/-- The filter with the patterns of another behind its own. -/
def Filter.append (f g : Filter) : Filter :=
  ⟨f.included ++ g.included, f.excluded ++ g.excluded⟩

/-- The paths without those that spell a path before them once more. -/
def Path.distinct (paths : List Path) : List Path :=
  (keepFirst (paths.map fun p => (p, p.components))).map (·.1)
where
  /-- The paths, each with its components, without those whose components were there before. -/
  keepFirst : List (Path × List Component) → List (Path × List Component)
    | [] => []
    | p :: ps => p :: (keepFirst ps).filter (·.2 ≠ p.2)

private theorem Path.mem_of_mem_keepFirst {x : Path × List Component} :
    ∀ {l : List (Path × List Component)}, x ∈ distinct.keepFirst l → x ∈ l
  | [], h => by simp [distinct.keepFirst] at h
  | p :: l, h => by
    simp only [distinct.keepFirst, List.mem_cons] at h
    rcases h with rfl | h
    · exact List.mem_cons_self
    · exact List.mem_cons_of_mem _ (mem_of_mem_keepFirst (List.mem_filter.1 h).1)

theorem Path.distinct_nil : distinct [] = [] := rfl

theorem Path.distinct_cons (p : Path) (ps : List Path) :
    distinct (p :: ps) = p :: (distinct ps).filter (!·.same p) := by
  simp only [distinct, List.map_cons, distinct.keepFirst, List.filter_map, List.cons.injEq,
    true_and]
  congr 1
  refine List.filter_congr fun x hx => ?_
  obtain ⟨q, -, rfl⟩ := List.mem_map.1 (mem_of_mem_keepFirst hx)
  by_cases h : q.components = p.components <;> simp [same, h]

namespace FileTree

/-- The files that a path leads to and whose text is wanted, in the order of their paths. -/
def discoverWhere (t : FileTree) (wanted : String → Bool) (path : Path) :
    Except Error (List Path) :=
  match t.resolve path with
  | .error _ => .error (.pathNotFound path)
  | .ok location =>
    match t.entry? location with
    | some .directory =>
      .ok (((t.filesBelow location path).filter (wanted ·.text)).mergeSort Path.le)
    | _ => .ok ([path].filter (wanted ·.text))

/-- The files that a path leads to and the filter lets through, in the order of their paths. -/
def discover (t : FileTree) (filter : Filter) (path : Path) : Except Error (List Path) :=
  t.discoverWhere filter.admits path

/-- The files that any of the paths leads to, each once. -/
def discoverAll (t : FileTree) (filter : Filter) (paths : List Path) :
    Except Error (List Path) := do
  let found ← paths.mapM (t.discover filter)
  return Path.distinct found.flatten

end FileTree

end SourceTally
