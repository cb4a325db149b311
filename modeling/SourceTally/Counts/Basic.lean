import SourceTally.Line

/-!
# Counts

Lines are counted by category, with the total beside them. Counts are numbers of 64 bits: `Counts`
holds plain numbers, and the operations that a program runs, `add?` and `record?`, fail when one of
them no longer fits.
-/

namespace SourceTally

/-- Numbers of lines. -/
structure Counts where
  blank : Nat := 0
  code : Nat := 0
  comment : Nat := 0
  header : Nat := 0
  total : Nat := 0
  deriving DecidableEq, Repr

/-- The number, if it is one of 64 bits. -/
def fitCount (n : Nat) : Except Fault Nat :=
  if n ≤ maxCount then .ok n else .error .tooMany

namespace Counts

instance : Add Counts where
  add a b :=
    { blank := a.blank + b.blank
      code := a.code + b.code
      comment := a.comment + b.comment
      header := a.header + b.header
      total := a.total + b.total }

/-- The counts of a single line. -/
def one : Category → Counts
  | .blank => { blank := 1, total := 1 }
  | .code => { code := 1, total := 1 }
  | .comment => { comment := 1, total := 1 }
  | .header => { header := 1, total := 1 }

/-- The number of lines of a category. -/
def get (c : Counts) : Category → Nat
  | .blank => c.blank
  | .code => c.code
  | .comment => c.comment
  | .header => c.header

/-- Every number fits. -/
def fits (c : Counts) : Bool :=
  c.blank ≤ maxCount && c.code ≤ maxCount && c.comment ≤ maxCount && c.header ≤ maxCount &&
    c.total ≤ maxCount

/-- The sum, if it fits. -/
def add? (a b : Counts) : Except Fault Counts :=
  if (a + b).fits then .ok (a + b) else .error .tooMany

/-- The counts with one more line, if they fit. -/
def record? (c : Counts) (category : Category) : Except Fault Counts :=
  c.add? (one category)

/-- Whether the categories add up to the total, if their sum fits. -/
def consistent? (c : Counts) : Except Fault Bool := do
  let sum ← fitCount (c.blank + c.code + c.comment + c.header)
  return sum == c.total

end Counts

end SourceTally
