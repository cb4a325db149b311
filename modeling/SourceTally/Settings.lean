import SourceTally.Discovery
import SourceTally.Header
import SourceTally.Profile.Table
import SourceTally.Registry

/-!
# Settings

A settings file says which header to look for, which files to take, and which languages there are
besides the built-in ones. Everything in it may be left out.
-/

namespace SourceTally

open Toml

/-- Reads a header policy. -/
def HeaderPolicy.ofToml? (value : Value) : Option HeaderPolicy := do
  let r ← Record.ofValue?
    ["enabled", "style", "allow_leading_blank_lines", "allow_shebang"] value
  let usual : HeaderPolicy := {}
  return {
    enabled := ← r.withDefault "enabled" Value.toBool? usual.enabled
    style := ← r.withDefault "style" (fun v => v.toName?.bind HeaderStyle.ofName?) usual.style
    allowLeadingBlankLines :=
      ← r.withDefault "allow_leading_blank_lines" Value.toBool? usual.allowLeadingBlankLines
    allowShebang := ← r.withDefault "allow_shebang" Value.toBool? usual.allowShebang }

namespace Registry

/-- Adds the languages of a table in the given text. `origin` names the table in errors. -/
def loadTable (r : Registry) (origin text : String) : Registry × Except Error Unit :=
  match Declaration.listOfToml? text with
  | some declarations => r.load declarations
  | none => (r, .error (.malformedTable origin))

/-- Adds the languages of a table in a file. -/
def loadTableFile (r : Registry) (t : FileTree) (path : Path) : Registry × Except Error Unit :=
  match t.readText path with
  | .ok text => r.loadTable path.text text
  | .error failure => (r, .error (.unreadableFile path failure))

end Registry

/-- The settings of a run. -/
structure Settings where
  header : HeaderPolicy := {}
  /-- Declared languages may take the place of built-in ones. -/
  replaceBuiltin : Bool := false
  included : List String := []
  excluded : List String := []
  languages : List Declaration := []
  deriving DecidableEq, Repr

namespace Settings

/-- Reads settings. -/
def ofToml? (text : String) : Option Settings := do
  let texts := Value.toList? Value.toText?
  let r ← Record.ofValue?
    ["header", "replace_builtin_languages", "include", "exclude", "language"]
    (← Toml.ofString? text)
  return {
    header := ← r.withDefault "header" HeaderPolicy.ofToml? {}
    replaceBuiltin := ← r.withDefault "replace_builtin_languages" Value.toBool? false
    included := ← r.withDefault "include" texts []
    excluded := ← r.withDefault "exclude" texts []
    languages := ← r.withDefault "language" (Value.toList? Declaration.ofToml?) [] }

/-- The settings in a text. `origin` names the text in errors. -/
def ofString (origin text : String) : Except Error Settings :=
  match ofToml? text with
  | some settings => .ok settings
  | none => .error (.malformedTable origin)

/-- The settings in a file. -/
def load (t : FileTree) (path : Path) : Except Error Settings :=
  match t.readText path with
  | .ok text => ofString path.text text
  | .error failure => .error (.unreadableFile path failure)

/-- The name of a settings file. -/
def fileName : String := "codestat.toml"

/-- The settings file of a directory, if it has one. -/
def findIn? (t : FileTree) (directory : Path) : Option Path :=
  let path := directory.join fileName
  if t.isFile path then some path else none

/-- Adds declared languages one after the other, up to the first that is refused. -/
def registerDeclared (r : Registry) : List Declaration → Except Error Registry
  | [] => .ok r
  | d :: ds => do
    let (r', replaced) := r.register (← d.profile)
    let _ ← replaced
    registerDeclared r' ds

/-- What happens to a declared language whose id is taken. -/
def policy (s : Settings) : DuplicatePolicy :=
  if s.replaceBuiltin then .replace else .reject

/-- The built-in languages and the declared ones. -/
def registry (s : Settings) : Except Error Registry :=
  registerDeclared { Registry.builtin with policy := s.policy } s.languages

/-- The filter of the patterns. -/
def filter (s : Settings) : Except Error Filter :=
  Filter.compile s.included s.excluded

end Settings

end SourceTally
