import SourceTally.Discovery
import SourceTally.Registry
import SourceTally.Tally

/-!
# Counting files

Every file that is found is counted, skipped for want of a language, or noted as unreadable; none of
these stops the others. What does stop a count is a path that does not exist and a language asked
for that is not known. A count that is called off still finds its files, and leaves those that it
had not come to.
-/

namespace SourceTally

/-- What is known of a file after it is counted. -/
structure FileStats where
  path : Path
  /-- The id of its language. -/
  language : String
  stats : Counts
  warnings : List Warning := []
  deriving DecidableEq, Repr

/-- A file that could not be counted. -/
structure FileError where
  path : Path
  message : String
  deriving DecidableEq, Repr

/-- How files are counted. -/
structure CountOptions where
  filter : Filter := {}
  header : HeaderPolicy := {}
  /-- The language of every file, whatever its name. -/
  language : Option String := none
  deriving DecidableEq, Repr

/-- The outcome of counting. -/
structure CountResult where
  fileCount : Nat := 0
  total : Counts := {}
  /-- By id. -/
  languages : List LanguageStats := []
  /-- In the order in which they were found, as are the next two. -/
  files : List FileStats := []
  skipped : List Path := []
  errors : List FileError := []
  cancelled : Bool := false
  deriving DecidableEq, Repr

/-- What becomes of one file. -/
inductive FileOutcome where
  /-- Counted, with the name of its language. -/
  | counted (file : FileStats) (name : String)
  | skipped (path : Path)
  | failed (error : FileError)
  /-- Left, because the count was called off. -/
  | cancelled
  deriving DecidableEq, Repr

namespace FileTree

/-- Counts a file in a given language. -/
def countAs (t : FileTree) (policy : HeaderPolicy) (profile : Profile) (path : Path) :
    Except Error FileStats :=
  match t.read path with
  | .error failure => .error (.unreadableFile path failure)
  | .ok bytes => do
    let report ← Fault.lift (profile.classifyFile policy (Text.decodeLossy bytes))
    return ⟨path, profile.id, report.counts, report.warnings⟩

/-- Counts a file in the language that its name belongs to. -/
def countFile (t : FileTree) (registry : Registry) (policy : HeaderPolicy) (path : Path) :
    Except Error FileStats := do
  let profile ← registry.resolvePath path
  t.countAs policy profile path

/-- The language that a file is counted in, if any. -/
def languageOf (registry : Registry) (forced : Option Profile) (path : Path) : Option Profile :=
  forced <|> (registry.resolvePath path).toOption

/-- What becomes of a file. Only numbers that grow too large are an error here. -/
def outcome (t : FileTree) (registry : Registry) (policy : HeaderPolicy)
    (forced : Option Profile) (path : Path) : Except Error FileOutcome :=
  match languageOf registry forced path with
  | none => .ok (.skipped path)
  | some profile =>
    match t.countAs policy profile path with
    | .ok file => .ok (.counted file profile.name)
    | .error (.outOfRange fault) => .error (.outOfRange fault)
    | .error e => .ok (.failed ⟨path, e.message⟩)

/-- What becomes of a file in a count that may be called off. `raised` says of which files the flag
was found raised when their turn came. -/
def outcomeUnless (t : FileTree) (registry : Registry) (policy : HeaderPolicy)
    (forced : Option Profile) (raised : Path → Bool) (path : Path) : Except Error FileOutcome :=
  if raised path then .ok .cancelled else t.outcome registry policy forced path

end FileTree

namespace CountResult

/-- The result with one more file. -/
def push (r : CountResult) : FileOutcome → CountResult
  | .counted file _ => { r with files := r.files ++ [file] }
  | .skipped path => { r with skipped := r.skipped ++ [path] }
  | .failed error => { r with errors := r.errors ++ [error] }
  | .cancelled => { r with cancelled := true }

/-- The tally of the files that were counted. -/
def tally (outcomes : List FileOutcome) : Except Fault Tally :=
  outcomes.foldlM addFile {}
where
  /-- The tally with the file of an outcome, if it was counted. -/
  addFile (t : Tally) : FileOutcome → Except Fault Tally
    | .counted file name => t.add? file.language name file.stats
    | _ => .ok t

/-- The result that the outcomes of single files add up to. -/
def ofOutcomes (outcomes : List FileOutcome) : Except Fault CountResult := do
  let t ← tally outcomes
  let lists := outcomes.foldl push {}
  return { lists with fileCount := t.fileCount, total := t.total, languages := t.languageStats }

end CountResult

namespace FileTree

/-- The language that every file is counted in, if one is asked for. -/
def forcedLanguage (registry : Registry) (language : Option String) :
    Except Error (Option Profile) :=
  language.mapM registry.resolve

/-- Counts the files that the paths lead to, those aside at which the count was found called off. -/
def count (t : FileTree) (registry : Registry) (options : CountOptions) (paths : List Path)
    (raised : Path → Bool := fun _ => false) : Except Error CountResult := do
  let forced ← forcedLanguage registry options.language
  let files ← t.discoverAll options.filter paths
  let outcomes ← files.mapM (t.outcomeUnless registry options.header forced raised)
  Fault.lift (CountResult.ofOutcomes outcomes)

end FileTree

end SourceTally
