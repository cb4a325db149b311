import SourceTally.Toml.Reader

/-!
# TOML documents

A document is a table. Its lines fall into sections: the pairs before the first header belong to
the document itself, those behind a header to the table that the header names. A byte order mark
in front counts for nothing.
-/

namespace SourceTally.Toml

/-- A section of a document. -/
structure Section where
  /-- The header is in double brackets. -/
  isArray : Bool
  header : Key
  pairs : List (Key × Value)

/-- The pairs before the first header, and the sections behind it. -/
def sections : List Statement → List (Key × Value) × List Section
  | [] => ([], [])
  | .pair k v :: rest =>
    let (pairs, later) := sections rest
    ((k, v) :: pairs, later)
  | .header k :: rest =>
    let (pairs, later) := sections rest
    ([], ⟨false, k, pairs⟩ :: later)
  | .arrayHeader k :: rest =>
    let (pairs, later) := sections rest
    ([], ⟨true, k, pairs⟩ :: later)

/-- The table with a section added. -/
def Section.addTo (s : Section) (entries : Entries) : Option Entries :=
  if s.isArray then entries.addToTables s.header s.pairs else entries.addTable s.header s.pairs

/-- The table that a document stands for, if it is well-formed. -/
def ofString? (text : String) : Option Value := do
  let chars :=
    match text.toList with
    | '\uFEFF' :: rest => rest
    | chars => chars
  let (pairs, later) := sections (← lines chars chars)
  let top ← Entries.addPairs .header [] pairs
  let entries ← later.foldlM (fun entries s => s.addTo entries) top
  return .table .header entries

end SourceTally.Toml
