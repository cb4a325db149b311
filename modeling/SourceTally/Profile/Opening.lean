import SourceTally.Profile.Basic

/-!
# Openings

Outside comments and strings, a scan looks for a delimiter that opens one. The longest delimiter
that stands at the place wins; among delimiters of one length, strings come before block comments,
block comments before line comments, and the one declared first before the others. `openings` lists
all of them in that order, so the first longest match is the one that wins.
-/

namespace SourceTally

/-- What a delimiter opens, with the index of its pair in the profile. -/
inductive Opening where
  | string (pair : Nat)
  | block (pair : Nat)
  | line
  deriving DecidableEq, Repr

namespace Profile

/-- All opening delimiters, in order of precedence among equally long ones. -/
def openings (p : Profile) : List (Opening × Token) :=
  (p.strings.zipIdx.map fun (s, i) => (.string i, s.opening)) ++
    (p.blockComments.zipIdx.map fun (b, i) => (.block i, b.opening)) ++
    p.lineComments.map fun t => (.line, t)

/-- The first longest of the listed delimiters that the text begins with. -/
def longestPrefix (rest : List Char) : List (Opening × Token) → Option (Opening × Token)
  | [] => none
  | o :: more =>
    match longestPrefix rest more with
    | some best =>
      if o.2.isPrefixOf rest && best.2.length ≤ o.2.length then some o else some best
    | none => if o.2.isPrefixOf rest then some o else none

/-- What opens at the beginning of the text, and the delimiter that opens it. -/
def opening? (p : Profile) (rest : List Char) : Option (Opening × Token) :=
  longestPrefix rest p.openings

end Profile

end SourceTally
