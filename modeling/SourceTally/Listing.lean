import SourceTally.Count
import SourceTally.Text.Pad
import SourceTally.Text.Style

/-!
# Listings

A listing shows how each line of a file is classified. The warnings of the file are put on the lines
they are about, unless a line has a warning already. Those of single lines are there already, so
what this adds is the warning about what is still open at the end of the file, on the line where it
was opened.
-/

namespace SourceTally

/-- The lines of a file and what they count as. -/
structure Listing where
  path : Path
  /-- The id of its language. -/
  language : String
  text : List Char
  results : List LineResult
  deriving DecidableEq, Repr

namespace Listing

/-- Puts a warning on the line it is about, unless the line has one. -/
def attach (results : List LineResult) (w : Warning) : List LineResult :=
  results.modify (w.line - 1) fun r => { r with warning := r.warning <|> some w }

/-- Lists a text in a given language. -/
def ofText (policy : HeaderPolicy) (profile : Profile) (path : Path) (text : List Char) :
    Except Fault Listing := do
  let (results, progress) ← Progress.pushAll profile policy (.start policy) (Text.lines text)
  return ⟨path, profile.id, text, progress.finish.warnings.foldl attach results⟩

/-- A line with what it counts as. -/
def renderLine (color : Bool) (result : LineResult) (line : List Char) : String :=
  let shown :=
    match result.warning with
    | some w => "  " ++ Text.yellow color ("[" ++ w.message ++ "]")
    | none => ""
  Text.padLeft 5 (toString result.line) ++ " " ++ Text.padRight 5 result.category.tag ++ " | " ++
    String.ofList line ++ shown ++ "\n"

/-- The text of the listing. -/
def render (color : Bool) (l : Listing) : String :=
  Text.bold color l.path.text ++ "\n" ++
    String.join (List.zipWith (renderLine color) l.results (Text.lines l.text))

end Listing

/-- What becomes of one file when files are listed. -/
inductive ListOutcome where
  | listed (listing : Listing)
  | skipped (path : Path)
  | failed (error : FileError)
  deriving DecidableEq, Repr

namespace FileTree

/-- What is said of a file that could not be read for a listing, with the cause behind it. -/
def listError (path : Path) (failure : ReadFailure) : FileError :=
  ⟨path, "failed to read file '" ++ path.text ++ "'" ++ ": " ++ failure.message⟩

/-- Lists a file, if its language is known. -/
def listFile (t : FileTree) (registry : Registry) (policy : HeaderPolicy)
    (forced : Option Profile) (path : Path) : Except Error ListOutcome :=
  match languageOf registry forced path with
  | none => .ok (.skipped path)
  | some profile =>
    match t.read path with
    | .error failure => .ok (.failed (listError path failure))
    | .ok bytes => do
      let listing ← Fault.lift (Listing.ofText policy profile path (Text.decodeLossy bytes))
      return .listed listing

/-- Lists the files that the paths lead to. -/
def list (t : FileTree) (registry : Registry) (options : CountOptions) (paths : List Path) :
    Except Error (List Listing × List FileError) := do
  let forced ← forcedLanguage registry options.language
  let files ← t.discoverAll options.filter paths
  let outcomes ← files.mapM (t.listFile registry options.header forced)
  let listings := outcomes.filterMap fun
    | .listed listing => some listing
    | _ => none
  let errors := outcomes.filterMap fun
    | .failed error => some error
    | _ => none
  return (listings, errors)

end FileTree

end SourceTally
