import SourceTally.Command.Run

/-!
# The command line

The files that a run may see are those that the arguments name and those that standard input lists,
one a line, where it is not a terminal. Whatever is decided is decided by `Command.run`; here files
are read and texts are written.
-/

namespace SourceTally.Command

/-- All that is left of a stream. -/
partial def readAll (stream : IO.FS.Stream) (before : String := "") : IO String := do
  let line ← stream.getLine
  if line.isEmpty then return before
  readAll stream (before ++ line)

/-- The names that standard input lists. -/
def listedPaths : IO (List Path) := do
  let stream ← IO.getStdin
  if ← stream.isTty then return []
  let names := Text.lines (← readAll stream).toList
  return (names.filter (· ≠ [])).map fun name => ⟨Text.encode name⟩

/-- The file that a path leads to, if it can be read. -/
def readEntry? (path : Path) : IO (Option Entry) := do
  try
    let bytes ← IO.FS.readBinFile path.text
    return some (.file bytes.toList)
  catch _ => return none

/-- The files that are named and those that are listed. -/
def readTree (named listed : List Path) : IO FileTree := do
  let mut tree := ({} : FileTree).enter (Path.ofText (toString (← IO.currentDir)))
  for path in listed do
    tree := tree.insertAt path ((← readEntry? path).getD .unreadable)
  for path in named do
    if !tree.pathExists path then
      if let some entry ← readEntry? path then
        tree := tree.insertAt path entry
  return tree

end SourceTally.Command

open SourceTally.Command in
/-- Runs the command. -/
def main (args : List String) : IO UInt32 := do
  let tree ← readTree (namedPaths args) (← listedPaths)
  let terminal ← (← IO.getStdout).isTty
  let color := wantsColor terminal (← IO.getEnv "CLICOLOR") (← IO.getEnv "CLICOLOR_FORCE")
  let outcome := run tree color args
  IO.print outcome.output
  IO.eprint outcome.errors
  return outcome.exitCode.toUInt32
