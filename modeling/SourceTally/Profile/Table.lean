import SourceTally.Profile.Declaration
import SourceTally.Toml.Document
import SourceTally.Toml.Record

/-!
# Language tables

Languages are declared in TOML, each in a table under the header `[[language]]`. A table of
languages holds nothing else.
-/

namespace SourceTally

open Toml

/-- Reads the declaration of a block comment. -/
def BlockDeclaration.ofToml? (value : Value) : Option BlockDeclaration := do
  let r ← Record.ofValue? ["open", "close", "nestable"] value
  return {
    opening := ← r.required "open" Value.toText?
    closing := ← r.required "close" Value.toText?
    nestable := ← r.withDefault "nestable" Value.toBool? false }

/-- Reads the declaration of a string. -/
def StringDeclaration.ofToml? (value : Value) : Option StringDeclaration := do
  let r ← Record.ofValue? ["open", "close", "escape", "multiline"] value
  return {
    opening := ← r.required "open" Value.toText?
    closing := ← r.optional "close" Value.toText?
    escape := ← r.optional "escape" Value.toText?
    multiline := ← r.withDefault "multiline" Value.toBool? false }

namespace Declaration

/-- Reads the declaration of a language. -/
def ofToml? (value : Value) : Option Declaration := do
  let texts := Value.toList? Value.toText?
  let r ← Record.ofValue?
    ["id", "name", "extensions", "filenames", "line_comments", "block_comments", "strings"] value
  return {
    id := ← r.required "id" Value.toText?
    name := ← r.optional "name" Value.toText?
    extensions := ← r.withDefault "extensions" texts []
    fileNames := ← r.withDefault "filenames" texts []
    lineComments := ← r.withDefault "line_comments" texts []
    blockComments :=
      ← r.withDefault "block_comments" (Value.toList? BlockDeclaration.ofToml?) []
    strings := ← r.withDefault "strings" (Value.toList? StringDeclaration.ofToml?) [] }

/-- Reads a table of languages. -/
def listOfToml? (text : String) : Option (List Declaration) := do
  let r ← Record.ofValue? ["language"] (← Toml.ofString? text)
  r.withDefault "language" (Value.toList? ofToml?) []

end Declaration

end SourceTally
