import SourceTally.Json.Basic
import SourceTally.Listing
import SourceTally.Table.Basic

/-!
# Results in JSON

Counts, listings and tables as structured output. A file's list of warnings, the warning of a line
and the title of a table are left out where there is nothing to show.
-/

namespace SourceTally

/-- The counts as structured output. -/
def Counts.toJson (c : Counts) : Json :=
  .object [
    ("blank", .number c.blank),
    ("code", .number c.code),
    ("comment", .number c.comment),
    ("header", .number c.header),
    ("total", .number c.total)]

/-- The warning as structured output. -/
def Warning.toJson (w : Warning) : Json :=
  .object [("kind", .text w.kind), ("line", .number w.line)]

/-- The result of a line as structured output. -/
def LineResult.toJson (r : LineResult) : Json :=
  .object ([("line", .number r.line), ("category", .text r.category.name)] ++
    r.warning.toList.map fun w => ("warning", w.toJson))

/-- The sums of a language as structured output. -/
def LanguageStats.toJson (l : LanguageStats) : Json :=
  .object [
    ("language", .text l.language),
    ("name", .text l.name),
    ("file_count", .number l.fileCount),
    ("stats", l.stats.toJson)]

/-- The tally as structured output. -/
def Tally.toJson (t : Tally) : Json :=
  .object [
    ("file_count", .number t.fileCount),
    ("total", t.total.toJson),
    ("languages", .object (t.languages.map fun (id, stats) => (id, stats.toJson)))]

/-- What is known of a file as structured output. -/
def FileStats.toJson (f : FileStats) : Json :=
  .object ([
    ("path", .text f.path.text),
    ("language", .text f.language),
    ("stats", f.stats.toJson)] ++
    if f.warnings.isEmpty then [] else [("warnings", .array (f.warnings.map Warning.toJson))])

/-- The file that could not be counted as structured output. -/
def FileError.toJson (e : FileError) : Json :=
  .object [("path", .text e.path.text), ("message", .text e.message)]

/-- The paths in the structured output of the outcome. -/
def CountResult.paths (r : CountResult) : List Path :=
  r.files.map FileStats.path ++ r.skipped ++ r.errors.map FileError.path

/-- The outcome of counting as structured output. -/
def CountResult.toJson (r : CountResult) : Json :=
  .object [
    ("file_count", .number r.fileCount),
    ("total", r.total.toJson),
    ("languages", .array (r.languages.map LanguageStats.toJson)),
    ("files", .array (r.files.map FileStats.toJson)),
    ("skipped", .array (r.skipped.map fun p => .text p.text)),
    ("errors", .array (r.errors.map FileError.toJson)),
    ("cancelled", .boolean r.cancelled)]

/-- The listing as structured output. -/
def Listing.toJson (l : Listing) : Json :=
  .object [
    ("path", .text l.path.text),
    ("language", .text l.language),
    ("lines", .array (l.results.map LineResult.toJson))]

/-- The row as structured output. -/
def TableRow.toJson (row : TableRow) : Json :=
  .object [("label", .text row.label), ("values", .array (row.values.map .text))]

/-- The table as structured output. -/
def Table.toJson (t : Table) : Json :=
  .object (t.title.toList.map (fun title => ("title", .text title)) ++ [
    ("headers", .array (t.headers.map .text)),
    ("rows", .array (t.rows.map TableRow.toJson)),
    ("footer", t.footer.toJson)])

end SourceTally
