/-!
# Scan states

A line is scanned from the state that the line before it left behind. A line comment never outlives
its line, so three states are enough: outside of everything, inside a block comment with the number
of delimiters still to be closed, and inside a string. Pairs are named by their index in the
profile.

Depths are 32-bit numbers and counts 64-bit numbers. Passing either limit stops the work with a
fault, and so does a state that names a pair the profile does not have.
-/

namespace SourceTally

/-- What a character of a line is part of. -/
inductive Kind where
  | code
  | lineComment
  | blockComment
  | string
  deriving DecidableEq, Repr

/-- Where a scan stands between two characters. -/
inductive ScanState where
  | normal
  /-- Inside the block comment of the given pair, with `depth` delimiters to be closed. -/
  | inBlock (pair depth : Nat)
  /-- Inside the string of the given pair; `escaped` when the character before was its escape. -/
  | inString (pair : Nat) (escaped : Bool)
  deriving DecidableEq, Repr

namespace ScanState

/-- Outside comments and strings. -/
def isNormal : ScanState → Bool
  | .normal => true
  | _ => false

/-- Inside a block comment. -/
def isInBlock : ScanState → Bool
  | .inBlock _ _ => true
  | _ => false

/-- Inside a string. -/
def isInString : ScanState → Bool
  | .inString _ _ => true
  | _ => false

end ScanState

/-- Why a scan or a count cannot go on. -/
inductive Fault where
  /-- The state names a pair that the profile does not have. -/
  | noSuchPair (pair : Nat)
  /-- A block comment is nested too deeply. -/
  | tooDeep
  /-- A count does not fit. -/
  | tooMany
  deriving DecidableEq, Repr

/-- The greatest depth of a block comment. -/
def maxDepth : Nat := 0xFFFFFFFF

/-- The greatest count. -/
def maxCount : Nat := 0xFFFFFFFFFFFFFFFF

end SourceTally
