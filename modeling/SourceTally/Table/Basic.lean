import SourceTally.Count
import SourceTally.Counts.Ratio

/-!
# Tables

Counts are shown in a table with a row for each language or for each file, and a row at the foot
for all of them. The first header is that of the labels, the others are those of the values.
-/

namespace SourceTally

/-- A row of a table. -/
structure TableRow where
  label : String
  values : List String
  deriving DecidableEq, Repr

/-- A table of texts. -/
structure Table where
  title : Option String := none
  headers : List String
  rows : List TableRow
  footer : TableRow
  deriving DecidableEq, Repr

/-- The numbers in the order of the columns. -/
def Counts.cells (c : Counts) : List String :=
  [toString c.code, toString c.comment, toString c.header, toString c.blank, toString c.total,
    c.ratioText]

namespace Table

/-- The headers of the columns that every table of counts has. -/
def countHeaders : List String :=
  ["Code", "Comment", "Header", "Blank", "Total", "Comment/Code"]

/-- The table with a row for each language. -/
def byLanguage (r : CountResult) : Table :=
  { headers := "Language" :: "Files" :: countHeaders
    rows := r.languages.map fun l => ⟨l.name, toString l.fileCount :: l.stats.cells⟩
    footer := ⟨"Total", toString r.fileCount :: r.total.cells⟩ }

/-- The table with a row for each file. -/
def byFile (r : CountResult) : Table :=
  { headers := "File" :: "Language" :: countHeaders
    rows := r.files.map fun f => ⟨f.path.text, f.language :: f.stats.cells⟩
    footer := ⟨"Total (" ++ toString r.fileCount ++ " files)", "" :: r.total.cells⟩ }

/-- The table with its labels changed, those of the header and the footer aside. -/
def mapLabels (f : String → String) (t : Table) : Table :=
  { t with rows := t.rows.map fun row => { row with label := f row.label } }

end Table

end SourceTally
