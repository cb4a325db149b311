import SourceTally.Command.Options
import SourceTally.Json.Report
import SourceTally.Settings
import SourceTally.Table.Render

/-!
# Running the command

A run reads the settings, makes up the registry and the filter, and then counts or lists the files.
Files that cannot be read are reported behind the result and do not make the run fail. `run` is a
function of the file tree and the arguments, and says what is written where.

`wantsColor` and `namedPaths` tell the surroundings of a run what they have to know: whether the
output may be coloured, and which files are worth reading.
-/

namespace SourceTally.Command

/-- What a run leaves behind. -/
structure Outcome where
  exitCode : Nat := 0
  output : String := ""
  errors : String := ""
  deriving DecidableEq, Repr

/-- The name and version of the program. -/
def versionText : String := "codestat 0.3.0\n"

/-- How the program is called. -/
def usageText : String :=
  "Usage: codestat [OPTIONS] [PATHS]...\n\n" ++
  "  -i, --include <GLOB>         take files that match\n" ++
  "  -e, --exclude <GLOB>         leave files that match\n" ++
  "  -l, --language <ID>          the language of every file\n" ++
  "  -f, --by-file                a row for each file\n" ++
  "  -o, --output <table|json>    the form of the output\n" ++
  "  -c, --config <FILE>          the settings file\n" ++
  "      --no-header              count headers as comments\n" ++
  "      --header-style <block|leading>\n" ++
  "  -j, --jobs <N>               the number of workers\n" ++
  "      --lines                  show the category of every line\n" ++
  "  -v, --verbose                say more, may be repeated\n" ++
  "  -h, --help\n" ++
  "  -V, --version\n"

/-- The settings that the options name, those of the working directory, or none. -/
def settings (t : FileTree) (o : Options) : Except Error Settings :=
  match o.settings with
  | some path => Settings.load t path
  | none =>
    match Settings.findIn? t "." with
    | some path => Settings.load t path
    | none => .ok {}

/-- The filter of the settings with the patterns of the options behind its own. -/
def filter (s : Settings) (o : Options) : Except Error Filter := do
  let first ← s.filter
  let second ← Filter.compile o.included o.excluded
  return first.append second

/-- The header policy of the settings with that of the options on top. -/
def headerPolicy (s : Settings) (o : Options) : HeaderPolicy :=
  { s.header with
    enabled := s.header.enabled && !o.noHeader
    style := o.headerStyle.getD s.header.style }

/-- The report on files that could not be read. -/
def errorReport (errors : List FileError) : String :=
  if errors.isEmpty then ""
  else
    String.join (errors.map fun e => "Error with " ++ e.path.text ++ ": " ++ e.message ++ "\n") ++
      toString errors.length ++ " error(s) encountered\n"

/-- The path of the working directory. -/
def workingPath (t : FileTree) : Path :=
  ⟨Path.slash :: [Path.slash].intercalate (t.workingDirectory.reverse.map Name.bytes)⟩

/-- The table that shows a count, with paths as seen from the working directory. -/
def countTable (t : FileTree) (o : Options) (r : CountResult) : Table :=
  if o.byFile then
    (Table.byFile r).mapLabels fun label => ((Path.ofText label).relativeTo (workingPath t)).text
  else Table.byLanguage r

/-- The text of structured output about the given paths, which all have to be text. -/
def structured (paths : List Path) (json : Json) : Except Error String :=
  if paths.all Path.isText then .ok (json.render ++ "\n") else .error .pathNotText

/-- Counts files. -/
def countFiles (t : FileTree) (color : Bool) (o : Options) (registry : Registry)
    (options : CountOptions) (paths : List Path) : Except Error Outcome := do
  let r ← t.count registry options paths
  let output ←
    if o.output = some .json then
      let shown := if o.byFile then r else { r with files := [] }
      structured shown.paths shown.toJson
    else pure ((countTable t o r).render color)
  return { output := output, errors := errorReport r.errors }

/-- Lists the lines of files. -/
def listFiles (t : FileTree) (color : Bool) (o : Options) (registry : Registry)
    (options : CountOptions) (paths : List Path) : Except Error Outcome := do
  let (listings, errors) ← t.list registry options paths
  let output ←
    if o.output = some .json then
      structured (listings.map Listing.path) (.array (listings.map Listing.toJson))
    else pure (String.join (listings.map fun l => l.render color ++ "\n"))
  return { output := output, errors := errorReport errors }

/-- Does what the options ask for. -/
def runOptions (t : FileTree) (color : Bool) (o : Options) : Except Error Outcome := do
  let s ← settings t o
  let registry ← s.registry
  let options : CountOptions :=
    { filter := ← filter s o, header := headerPolicy s o, language := o.language }
  let paths : List Path := if o.paths.isEmpty then ["."] else o.paths
  if o.lines then listFiles t color o registry options paths
  else countFiles t color o registry options paths

/-- The output is coloured on a terminal, unless that is switched off, or when it is asked for. The
switches are the values of the environment's `CLICOLOR` and `CLICOLOR_FORCE`. -/
def wantsColor (terminal : Bool) (switch force : Option String) : Bool :=
  (terminal && switch.getD "1" != "0") || force.getD "0" != "0"

/-- The paths that the arguments name, and that of the usual settings file. -/
def namedPaths (args : List String) : List Path :=
  match Request.ofArgs args with
  | .ok (.run o) => o.paths ++ o.settings.toList ++ [Path.join "." Settings.fileName]
  | _ => []

/-- Runs the command on a file tree. -/
def run (t : FileTree) (color : Bool) (args : List String) : Outcome :=
  match Request.ofArgs args with
  | .error e => { exitCode := 2, errors := "error: " ++ e.message ++ "\n\n" ++ usageText }
  | .ok .version => { output := versionText }
  | .ok .help => { output := usageText }
  | .ok (.run o) =>
    match runOptions t color o with
    | .ok outcome => outcome
    | .error e => { exitCode := 1, errors := "Error: " ++ e.chain ++ "\n" }

end SourceTally.Command
