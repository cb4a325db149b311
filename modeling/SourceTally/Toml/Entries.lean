import SourceTally.Toml.Value

/-!
# Filling tables

A dotted key reaches into tables that dotted keys before it made, and makes those that are missing.
It reaches through tables that headers made on their way too, but puts nothing into one of them
directly. Where headers have listed tables, it reaches into the last of them in the same way. No
value is ever written over.
-/

namespace SourceTally.Toml

/-- A key as written: its parts between the dots. -/
abbrev Key := List String

namespace Entries

/-- Puts a value under a key in a table that came about as `origin` says. -/
def addPair (origin : Origin) (entries : Entries) : Key → Value → Option Entries
  | [], _ => none
  | [last], value =>
    if origin = .implicit || (entries.lookup last).isSome then none
    else some (entries ++ [(last, value)])
  | part :: parts, value =>
    match entries.lookup part with
    | none => do
      let inner ← addPair .dotted [] parts value
      return entries ++ [(part, .table .dotted inner)]
    | some (.table .dotted inner) => do
      return entries.replace part (.table .dotted (← addPair .dotted inner parts value))
    | some (.table .implicit inner) => do
      return entries.replace part (.table .implicit (← addPair .implicit inner parts value))
    | some (.tables items) =>
      match items.getLast?, parts with
      | some (.table origin inner), _ :: _ :: _ => do
        let last := Value.table origin (← addPair origin inner parts value)
        return entries.replace part (.tables (items.dropLast ++ [last]))
      | _, _ => none
    | some _ => none

/-- Puts values under their keys, in order. -/
def addPairs (origin : Origin) (entries : Entries) (pairs : List (Key × Value)) :
    Option Entries :=
  pairs.foldlM (fun entries (k, v) => entries.addPair origin k v) entries

/-- Works on the table that the parts of a header lead to, making those on the way that are
missing. -/
def descend (entries : Entries) (work : Entries → Option Entries) : Key → Option Entries
  | [] => work entries
  | part :: parts =>
    match entries.lookup part with
    | none => do return entries ++ [(part, .table .implicit (← descend [] work parts))]
    | some (.table .inline _) => none
    | some (.table origin inner) => do
      return entries.replace part (.table origin (← descend inner work parts))
    | some (.tables items) =>
      match items.getLast? with
      | some (.table origin inner) => do
        let last := Value.table origin (← descend inner work parts)
        return entries.replace part (.tables (items.dropLast ++ [last]))
      | _ => none
    | some _ => none

/-- Adds the table under a header. A table that was made on the way to another may still get its
header. -/
def addTable (entries : Entries) (header : Key) (pairs : List (Key × Value)) : Option Entries :=
  match header.getLast? with
  | none => none
  | some last =>
    entries.descend (fun parent =>
      match parent.lookup last with
      | none => do return parent ++ [(last, .table .header (← addPairs .header [] pairs))]
      | some (.table .implicit inner) => do
        return parent.replace last (.table .header (← addPairs .header inner pairs))
      | some _ => none) header.dropLast

/-- Adds a table to those under a header in double brackets. -/
def addToTables (entries : Entries) (header : Key) (pairs : List (Key × Value)) :
    Option Entries :=
  match header.getLast?, addPairs .header [] pairs with
  | some last, some item =>
    entries.descend (fun parent =>
      match parent.lookup last with
      | none => some (parent ++ [(last, .tables [.table .header item])])
      | some (.tables items) =>
        some (parent.replace last (.tables (items ++ [.table .header item])))
      | some _ => none) header.dropLast
  | _, _ => none

end Entries

end SourceTally.Toml
