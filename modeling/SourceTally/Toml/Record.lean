import SourceTally.Toml.Value

/-!
# Records in TOML

A record has fields of known names. It is written as a table, whose keys must all be among the
names, or as an array of the fields in order, whose surplus items count for nothing. A field with a
default may be left out either way. An optional field may be left out of a table only: an array has
to hold it.
-/

namespace SourceTally.Toml

/-- The text of a value. -/
def Value.toText? : Value → Option String
  | .text s => some s
  | _ => none

/-- The truth value of a value. -/
def Value.toBool? : Value → Option Bool
  | .boolean b => some b
  | _ => none

/-- The items of a value, each read in the same way. -/
def Value.toList? {α : Type} (item : Value → Option α) : Value → Option (List α)
  | .array items => items.mapM item
  | .tables items => items.mapM item
  | _ => none

/-- The value is a table or an array with nothing in it. -/
def Value.isEmpty : Value → Bool
  | .array items => items.isEmpty
  | .tables items => items.isEmpty
  | .table _ entries => entries.isEmpty
  | _ => false

/-- One of a number of names: as text, or as the key of a table that holds an empty value under
it and nothing else. -/
def Value.toName? : Value → Option String
  | .text s => some s
  | .table _ [(name, value)] => if value.isEmpty then some name else none
  | _ => none

/-- A record as written. -/
structure Record where
  /-- The fields are in an array. -/
  isArray : Bool
  fields : List (String × Value)

namespace Record

/-- The record with the given field names that a value stands for. -/
def ofValue? (names : List String) : Value → Option Record
  | .table _ entries =>
    if entries.all fun entry => names.contains entry.1 then some ⟨false, entries⟩ else none
  | .array items => some ⟨true, names.zip items⟩
  | .tables items => some ⟨true, names.zip items⟩
  | _ => none

/-- A field that must be there. -/
def required {α : Type} (r : Record) (name : String) (read : Value → Option α) : Option α := do
  read (← r.fields.lookup name)

/-- A field that has a default. -/
def withDefault {α : Type} (r : Record) (name : String) (read : Value → Option α)
    (default : α) : Option α :=
  match r.fields.lookup name with
  | some value => read value
  | none => some default

/-- A field that a table may leave out. -/
def optional {α : Type} (r : Record) (name : String) (read : Value → Option α) :
    Option (Option α) :=
  match r.fields.lookup name with
  | some value => (read value).map some
  | none => if r.isArray then none else some none

end Record

end SourceTally.Toml
