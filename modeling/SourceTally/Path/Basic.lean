import SourceTally.Text.Split
import SourceTally.Text.Utf8

/-!
# Paths

Names and paths are bytes: a file system does not ask that they be text. `Name.text?` is the text of
a name, which a name with malformed bytes does not have, and `Path.text` is the text that a path is
shown with and that patterns are matched against, with the replacement character for each malformed
piece.

A path is kept as it was written, because that is how it is shown again, and is compared by its
components. Between slashes, nothing and a dot count for nothing, so `a//b`, `a/./b` and `a/b/` are
spellings of one path; a dot that a path begins with does count, so `./a` is another path than `a`.
Components are ordered root, dot, double dot, names, and names by their bytes.
-/

namespace SourceTally

/-- The byte that stands between the names of a path. -/
def Path.slash : UInt8 := 0x2F

/-- The byte of a dot. -/
def Path.dot : UInt8 := 0x2E

/-- The name of an entry of a directory. -/
structure Name where
  bytes : List UInt8
  deriving DecidableEq, Repr

namespace Name

/-- The name that a text spells. -/
def ofText (text : String) : Name :=
  ⟨Text.encode text.toList⟩

instance instCoeText : Coe String Name :=
  ⟨ofText⟩

/-- The text of the name, if it is one. -/
def text? (name : Name) : Option String :=
  (Text.decode? name.bytes).map String.ofList

/-- The name of every directory in itself. -/
def current : Name := ⟨[Path.dot]⟩

/-- The name of the directory above in every directory. -/
def parent : Name := ⟨[Path.dot, Path.dot]⟩

end Name

/-- A path as it was written. -/
structure Path where
  bytes : List UInt8
  deriving DecidableEq, Repr

namespace Path

/-- The path that a text spells. -/
def ofText (text : String) : Path :=
  ⟨Text.encode text.toList⟩

instance instCoeText : Coe String Path :=
  ⟨ofText⟩

/-- The text that the path is shown with. -/
def text (p : Path) : String :=
  String.ofList (Text.decodeLossy p.bytes)

/-- The path is text. -/
def isText (p : Path) : Bool :=
  (Text.decode? p.bytes).isSome

/-- A step of a path. -/
inductive Component where
  | root
  | current
  | parent
  | name (name : Name)
  deriving DecidableEq, Repr

namespace Component

/-- The place of the kind of component in the order. -/
def rank : Component → Nat
  | .root => 0
  | .current => 1
  | .parent => 2
  | .name _ => 3

/-- The order of components. -/
def lt : Component → Component → Bool
  | .name a, .name b => a.bytes < b.bytes
  | a, b => a.rank < b.rank

instance : LT Component :=
  ⟨fun a b => a.lt b = true⟩

instance : DecidableLT Component :=
  fun a b => inferInstanceAs (Decidable (a.lt b = true))

/-- The component that stands between two slashes, if any. -/
def ofPiece? (piece : List UInt8) : Option Component :=
  if piece = [] || piece = [dot] then none
  else if piece = [dot, dot] then some .parent
  else some (.name ⟨piece⟩)

end Component

/-- The pieces between slashes, each with the component it stands for. A path that begins with a
slash has an empty first piece, which stands for the root. -/
def pieces (p : Path) : List (List UInt8 × Option Component) :=
  match Text.split slash p.bytes with
  | [] => []
  | [[]] => [([], none)]
  | first :: rest =>
    let start : Option Component :=
      if first = [] then some .root
      else if first = [dot] then some .current
      else Component.ofPiece? first
    (first, start) :: rest.map fun piece => (piece, Component.ofPiece? piece)

/-- The components of a path. -/
def components (p : Path) : List Component :=
  p.pieces.filterMap (·.2)

/-- The path begins at the root. -/
def isAbsolute (p : Path) : Bool :=
  p.bytes.head? == some slash

/-- Two spellings of one path. -/
def same (p q : Path) : Bool :=
  p.components == q.components

/-- The order of paths, component by component. -/
def le (p q : Path) : Bool :=
  decide (p.components ≤ q.components)

/-- The name that the path ends in. -/
def fileName? (p : Path) : Option Name :=
  match p.components.getLast? with
  | some (.name name) => some name
  | _ => none

/-- The path of something of the given name inside the directory that the path leads to. -/
def join (p : Path) (name : Name) : Path :=
  if p.bytes = [] || p.bytes.getLast? = some slash then ⟨p.bytes ++ name.bytes⟩
  else ⟨p.bytes ++ slash :: name.bytes⟩

/-- The pieces without those at the end that stand for nothing. -/
def trimEnd (pieces : List (List UInt8 × Option Component)) :
    List (List UInt8 × Option Component) :=
  (pieces.reverse.dropWhile (·.2.isNone)).reverse

/-- The pieces after the first `n` that stand for a component. -/
def dropComponents : Nat → List (List UInt8 × Option Component) →
    List (List UInt8 × Option Component)
  | 0, pieces => pieces
  | _, [] => []
  | n + 1, (_, some _) :: pieces => dropComponents n pieces
  | n + 1, (_, none) :: pieces => dropComponents (n + 1) pieces

/-- The path of pieces with slashes between them. -/
def joinPieces (pieces : List (List UInt8 × Option Component)) : Path :=
  ⟨[slash].intercalate (pieces.map (·.1))⟩

/-- What is left of the path behind a base that it begins with, as it was written. -/
def strip? (p base : Path) : Option Path :=
  if base.components.isPrefixOf p.components then
    match base.components.length with
    | 0 =>
      match trimEnd p.pieces with
      | [(_, some .root)] => some ⟨[slash]⟩
      | pieces => some (joinPieces pieces)
    | n =>
      some (joinPieces (trimEnd ((dropComponents n p.pieces).dropWhile (·.2.isNone))))
  else none

/-- The path as seen from a base: without the base if it begins with it, and as it is if not. -/
def relativeTo (p base : Path) : Path :=
  (p.strip? base).getD p

end Path

end SourceTally
