import SourceTally.FileTree.Basic

/-!
# Walking a directory

A walk lists the files below a directory. It follows links, and it ends for every tree: a link to a
directory that the walk is already inside of is passed over, so along any branch each followed link
adds a directory to those the walk is inside of, and between two links the walk only goes down.
Directories whose name begins with a dot, and those named `target`, are left out; the directory
that the walk starts from is taken whatever its name. A name that is not text is neither, so a
directory of such a name is taken even if its first byte is that of a dot.
-/

namespace SourceTally.FileTree

/-- The directories of the tree. -/
def directories (t : FileTree) : List Location :=
  [] :: (t.entries.filter (·.2 == .directory)).map (·.1)

/-- The names in a directory, with what stands there. -/
def children (t : FileTree) (directory : Location) : List (Name × Entry) :=
  t.entries.filterMap fun (location, entry) =>
    match location with
    | name :: parent => if parent = directory then some (name, entry) else none
    | [] => none

/-- The length of the longest location. -/
def height (t : FileTree) : Nat :=
  (t.entries.map (·.1.length)).foldl max 0

/-- The directories of the tree that the walk is not inside of. -/
def outside (t : FileTree) (inside : List Location) : List Location :=
  t.directories.filter fun d => !inside.contains d

/-- The directory is left out of a walk because of its name. A name that is not text counts as
empty. -/
def isSkipped (name : Name) : Bool :=
  let text := name.text?.getD ""
  text.toList.head? == some '.' || text == "target"

/-- Where a walk goes from a name in a directory. -/
inductive Branch where
  /-- Nowhere. -/
  | nothing
  /-- To a file. -/
  | file
  /-- Down into a directory of the same tree branch. -/
  | down
  /-- Through a link into the directory at a location. -/
  | across (location : Location)
  deriving DecidableEq, Repr

/-- Where a walk goes from an entry of a directory, when it is inside of the given directories. The
entry is reached by the given path, so all links on that path count against the limit. -/
def branch (t : FileTree) (inside : List Location) (path : Path) (name : Name) (entry : Entry) :
    Branch :=
  match entry with
  | .file _ => .file
  | .unreadable => .file
  | .directory => if isSkipped name then .nothing else .down
  | .link _ =>
    match t.resolve path with
    | .error _ => .nothing
    | .ok location =>
      match t.entry? location with
      | some .directory =>
        if isSkipped name || inside.contains location then .nothing else .across location
      | some (.file _) => .file
      | some .unreadable => .file
      | _ => .nothing

theorem mem_entries_of_mem_children {t : FileTree} {directory : Location} {name : Name}
    {entry : Entry} (h : (name, entry) ∈ t.children directory) :
    (name :: directory, entry) ∈ t.entries := by
  obtain ⟨⟨location, e⟩, hmem, hx⟩ := List.mem_filterMap.1 h
  cases location with
  | nil => simp at hx
  | cons n parent =>
    simp only [Option.ite_none_right_eq_some, Option.some.injEq, Prod.mk.injEq] at hx
    obtain ⟨rfl, rfl, rfl⟩ := hx
    exact hmem

theorem length_le_height {t : FileTree} {location : Location} {entry : Entry}
    (h : (location, entry) ∈ t.entries) : location.length ≤ t.height := by
  rw [height, List.foldl_max]
  exact Nat.le_trans (List.le_max?_getD_of_mem (List.mem_map.2 ⟨_, h, rfl⟩)) (Nat.le_max_right ..)

theorem mem_directories {t : FileTree} {location : Location}
    (h : t.entry? location = some .directory) : location ∈ t.directories := by
  unfold entry? at h
  split at h
  · next hl => simp [hl, directories]
  · obtain ⟨l₁, l₂, hl, -⟩ := List.lookup_eq_some_iff.1 h
    refine List.mem_cons_of_mem _ (List.mem_map.2 ⟨(location, .directory), ?_, rfl⟩)
    simp [hl]

/-- Going into a directory takes that one from those outside. -/
theorem outside_cons (t : FileTree) (inside : List Location) (d : Location) :
    t.outside (d :: inside) = (t.outside inside).filter (· != d) := by
  simp only [outside, List.filter_filter, List.contains_cons, Bool.not_or, bne]

/-- Going into one more directory never adds to those outside. -/
theorem length_outside_cons_le (t : FileTree) (inside : List Location) (d : Location) :
    (t.outside (d :: inside)).length ≤ (t.outside inside).length := by
  rw [outside_cons]
  exact List.length_filter_le ..

/-- Going into a directory that was outside leaves fewer outside. -/
theorem length_outside_cons_lt {t : FileTree} {inside : List Location} {d : Location}
    (hmem : d ∈ t.directories) (hd : d ∉ inside) :
    (t.outside (d :: inside)).length < (t.outside inside).length := by
  rw [outside_cons, List.length_filter_lt_length_iff_exists]
  exact ⟨d, by simp [outside, hmem, hd], by simp⟩

/-- A walk goes across only into directories of the tree that it is not inside of. -/
theorem of_branch_eq_across {t : FileTree} {inside : List Location} {location : Location}
    {path : Path} {name : Name} {entry : Entry}
    (h : t.branch inside path name entry = .across location) :
    location ∈ t.directories ∧ location ∉ inside := by
  unfold branch at h
  split at h
  · cases h
  · cases h
  · split at h <;> cases h
  · split at h
    · cases h
    · split at h
      · next hdir =>
        split at h
        · cases h
        · next hskip =>
          cases h
          refine ⟨mem_directories hdir, ?_⟩
          simp_all
      · cases h
      · cases h
      · cases h

/-- The paths of the files below a directory that is reached by the given path. `inside` lists the
directories that the walk is inside of, this one included. -/
def walk (t : FileTree) (inside : List Location) (directory : Location) (path : Path) :
    List Path :=
  (t.children directory).attach.flatMap fun ⟨(name, entry), _hmem⟩ =>
    match _h : t.branch inside (path.join name) name entry with
    | .nothing => []
    | .file => [path.join name]
    | .down => t.walk ((name :: directory) :: inside) (name :: directory) (path.join name)
    | .across location => t.walk (location :: inside) location (path.join name)
termination_by ((t.outside inside).length, t.height - directory.length)
decreasing_by
  · have hle := length_outside_cons_le t inside (name :: directory)
    have hlen := length_le_height (mem_entries_of_mem_children _hmem)
    simp only [List.length_cons] at hlen
    rcases Nat.lt_or_eq_of_le hle with hlt | heq
    · exact Prod.Lex.left _ _ hlt
    · rw [heq]
      refine Prod.Lex.right _ ?_
      simp only [List.length_cons]
      omega
  · have hx := of_branch_eq_across _h
    exact Prod.Lex.left _ _ (length_outside_cons_lt hx.1 hx.2)

/-- The paths of the files below the directory at a location that is reached by the given path. -/
def filesBelow (t : FileTree) (directory : Location) (path : Path) : List Path :=
  t.walk [directory] directory path

end SourceTally.FileTree
