import SourceTally.Table.Basic
import SourceTally.Text.Pad
import SourceTally.Text.Style

/-!
# Showing a table

Labels stand at the left and values at the right of their columns. The column of labels is as wide
as the longest label with two spaces, within bounds; a label that is too long loses its beginning.
The other columns are all as wide as the longest of their headers asks for. A value may be wider
than its column, and its row is then wider than the others.
-/

namespace SourceTally.Table

/-- The least and the greatest room for a label. -/
def labelBounds : Nat × Nat := (8, 60)

/-- The least width of a column of values. -/
def minCellWidth : Nat := 10

/-- The room for labels, without the spaces behind them. -/
def labelRoom (t : Table) : Nat :=
  let labels := t.rows.map (·.label) ++ [t.footer.label] ++ t.headers.take 1
  let longest := (labels.map String.length).foldl max 0
  max labelBounds.1 (min longest labelBounds.2)

/-- The width of the column of labels. -/
def nameWidth (t : Table) : Nat :=
  t.labelRoom + 2

/-- The width of a column of values. -/
def cellWidth (t : Table) : Nat :=
  ((t.headers.drop 1).map (·.length + 2)).foldl max minCellWidth

/-- The label cut down to a number of characters: two dots and as much of its end as fits. -/
def truncate (room : Nat) (label : String) : String :=
  if room < label.length then
    ".." ++ String.ofList (label.toList.drop (label.length - room + 2))
  else label

/-- A row set in columns. -/
def formatRow (t : Table) (label : String) (values : List String) : String :=
  Text.padRight t.nameWidth (truncate t.labelRoom label) ++
    String.join (values.map (Text.padLeft t.cellWidth))

/-- The line between the parts of the table. -/
def separator (t : Table) : String :=
  Text.fill '-' (t.nameWidth + t.cellWidth * (t.headers.length - 1))

/-- The lines of the table. -/
def renderLines (color : Bool) (t : Table) : List String :=
  let title :=
    match t.title with
    | some title => [Text.bold color title, Text.fill '-' title.length]
    | none => []
  let header := Text.bold color (t.formatRow (t.headers.headD "") t.headers.tail)
  let rows := t.rows.map fun row => t.formatRow row.label row.values
  let below := if t.rows.isEmpty then [] else [t.separator]
  let footer := Text.bold color (t.formatRow t.footer.label t.footer.values)
  title ++ [header, t.separator] ++ rows ++ below ++ [footer]

/-- The text of the table. -/
def render (color : Bool) (t : Table) : String :=
  String.join ((t.renderLines color).map (· ++ "\n"))

end SourceTally.Table
