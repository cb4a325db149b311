/-!
# TOML values

What a TOML document holds. Of numbers and dates it is only known that they are there, since no
setting is one. A table remembers how it came about, because that decides what may still be added
to it: a table under a header of its own is complete with its section, one that was made on the way
to another can still get a header, and one written in braces is closed.
-/

namespace SourceTally.Toml

/-- How a table came about. -/
inductive Origin where
  /-- Under its own header; the document itself counts as such. -/
  | header
  /-- On the way to the table that a header names. -/
  | implicit
  /-- By a dotted key. -/
  | dotted
  /-- In braces. -/
  | inline
  deriving DecidableEq, Repr

/-- A value of a document. -/
inductive Value where
  | text (text : String)
  | boolean (value : Bool)
  /-- A number or a date. -/
  | number
  | array (items : List Value)
  /-- The tables under headers in double brackets. -/
  | tables (items : List Value)
  | table (origin : Origin) (entries : List (String × Value))

/-- What a table holds, by key. -/
abbrev Entries := List (String × Value)

/-- The entries with another value under a key that is there. -/
def Entries.replace (entries : Entries) (key : String) (value : Value) : Entries :=
  entries.map fun entry => if entry.1 = key then (key, value) else entry

end SourceTally.Toml
