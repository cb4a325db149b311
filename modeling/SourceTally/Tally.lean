import SourceTally.File.Basic

/-!
# Tallies

A tally sums up files: how many there are, how many lines they have, and the same for each
language. The languages are kept in the order of their ids, which is the order of the code points
and so also that of the bytes. Files are added one by one, or all those of another tally at once.
-/

namespace SourceTally

/-- The sums over the files of one language. -/
structure LanguageStats where
  language : String
  name : String
  fileCount : Nat := 0
  stats : Counts := {}
  deriving DecidableEq, Repr

/-- The sum with the files of `b`, under the name that is known. -/
def LanguageStats.add? (a b : LanguageStats) : Except Fault LanguageStats := do
  let fileCount ← fitCount (a.fileCount + b.fileCount)
  let stats ← a.stats.add? b.stats
  return { a with fileCount := fileCount, stats := stats }

/-- The sums over a number of files. -/
structure Tally where
  fileCount : Nat := 0
  total : Counts := {}
  /-- By id, in increasing order. -/
  languages : List (String × LanguageStats) := []
  deriving DecidableEq, Repr

namespace Tally

/-- Adds the files of a language to those of the same id, or puts them in their place. -/
def insert? (id : String) (stats : LanguageStats) :
    List (String × LanguageStats) → Except Fault (List (String × LanguageStats))
  | [] => return [(id, stats)]
  | (id', stats') :: rest => do
    if id < id' then return (id, stats) :: (id', stats') :: rest
    else if id = id' then return (id', ← stats'.add? stats) :: rest
    else return (id', stats') :: (← insert? id stats rest)

/-- The tally with one more file. -/
def add? (t : Tally) (language name : String) (counts : Counts) : Except Fault Tally := do
  let fileCount ← fitCount (t.fileCount + 1)
  let total ← t.total.add? counts
  let languages ← insert? language ⟨language, name, 1, counts⟩ t.languages
  return ⟨fileCount, total, languages⟩

/-- The tally of the files of both. -/
def merge? (a b : Tally) : Except Fault Tally := do
  let fileCount ← fitCount (a.fileCount + b.fileCount)
  let total ← a.total.add? b.total
  let languages ← b.languages.foldlM (fun l (id, stats) => insert? id stats l) a.languages
  return ⟨fileCount, total, languages⟩

/-- The sums of each language, in the order of the ids. -/
def languageStats (t : Tally) : List LanguageStats :=
  t.languages.map (·.2)

end Tally

end SourceTally
