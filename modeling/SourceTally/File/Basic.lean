import SourceTally.Counts.Basic
import SourceTally.Header
import SourceTally.Text.Lines

/-!
# Classifying a file

The lines of a file are classified one after the other. `Progress` is what has to be remembered
between two lines: the scan state, the phase of the header, the line on which the block comment or
string that is still open was opened, and the counts and warnings so far. At the end of the file,
whatever is still open gives a last warning.
-/

namespace SourceTally

/-- The counts and warnings of a file. -/
structure FileReport where
  counts : Counts := {}
  warnings : List Warning := []
  deriving DecidableEq, Repr

/-- How far the classification of a file has got. -/
structure Progress where
  /-- The number of lines so far. -/
  lines : Nat := 0
  state : ScanState := .normal
  phase : HeaderPhase
  /-- The line of the block comment that is open. -/
  blockOpenedAt : Option Nat := none
  /-- The line of the string that is open. -/
  stringOpenedAt : Option Nat := none
  counts : Counts := {}
  /-- The warnings so far, the latest first. -/
  warnings : List Warning := []
  deriving DecidableEq, Repr

namespace Progress

/-- Before the first line. -/
def start (policy : HeaderPolicy) : Progress :=
  { phase := policy.start }

/-- The line on which something open after line `number` was opened. `before` and `after` say
whether it was open before and after the line, and `known` is the line known so far. -/
def openedAt (before after : Bool) (known : Option Nat) (number : Nat) : Option Nat :=
  if !after then none
  else if before then known <|> some number
  else some number

/-- Classifies the next line. -/
def push (p : Profile) (policy : HeaderPolicy) (progress : Progress) (line : List Char) :
    Except Fault (LineResult × Progress) := do
  let number := progress.lines + 1
  let scanned ← p.scanLine progress.state line
  let (category, phase) := policy.advance progress.phase number line scanned
  let warning := scanned.warning number
  let counts ← progress.counts.record? category
  let next : Progress :=
    { lines := number
      state := scanned.state
      phase := phase
      blockOpenedAt :=
        openedAt progress.state.isInBlock scanned.state.isInBlock progress.blockOpenedAt number
      stringOpenedAt :=
        openedAt progress.state.isInString scanned.state.isInString progress.stringOpenedAt number
      counts := counts
      warnings := warning.toList ++ progress.warnings }
  return (⟨number, category, warning⟩, next)

/-- Classifies lines in order, with the result of each. -/
def pushAll (p : Profile) (policy : HeaderPolicy) :
    Progress → List (List Char) → Except Fault (List LineResult × Progress)
  | progress, [] => return ([], progress)
  | progress, line :: lines => do
    let (result, progress) ← push p policy progress line
    let (results, progress) ← pushAll p policy progress lines
    return (result :: results, progress)

/-- The warning about what is still open at the end of the file. -/
def openWarning (progress : Progress) : Option Warning :=
  match progress.state with
  | .normal => none
  | .inBlock _ _ => some (.unterminatedBlock (progress.blockOpenedAt.getD progress.lines))
  | .inString _ _ => some (.unterminatedString (progress.stringOpenedAt.getD progress.lines))

/-- The report at the end of the file. -/
def finish (progress : Progress) : FileReport :=
  ⟨progress.counts, progress.warnings.reverse ++ progress.openWarning.toList⟩

end Progress

namespace Profile

/-- The report on a file that is given by its lines. -/
def classifyLines (p : Profile) (policy : HeaderPolicy) (lines : List (List Char)) :
    Except Fault FileReport := do
  let (_, progress) ← Progress.pushAll p policy (.start policy) lines
  return progress.finish

/-- The report on a file that is given by its text. -/
def classifyFile (p : Profile) (policy : HeaderPolicy) (text : List Char) :
    Except Fault FileReport :=
  p.classifyLines policy (Text.lines text)

end Profile

end SourceTally
