import SourceTally.Text.CaseTable

/-!
# Lower case

Names are compared in lower case. Every letter has a lower-case form of its own, with two
exceptions: the dotted capital I lowers to two characters, and the capital sigma lowers to its
final form where a word ends. A word ends at a sigma that has a cased letter somewhere before it
and none after it, case-ignorable characters not counting on either side. The lower-case form of a
name therefore is not the lower-case form of its parts put together.
-/

namespace SourceTally.Text

/-- The one letter that `c` lowers to outside of any context. The runs are in order, so the search
for the one that holds `c` ends where they have passed it. -/
def lowerLetter (c : Char) : Char :=
  match lowerRuns.find? fun run => run.holds c.toNat || c.toNat < run.first with
  | some run =>
    if run.holds c.toNat then Char.ofNat (run.lower + (c.toNat - run.first)) else c
  | none => c

/-- A cased letter comes first once the case-ignorable characters are passed over. -/
def meetsCased (text : List Char) : Bool :=
  match text.dropWhile isCaseIgnorable with
  | [] => false
  | c :: _ => isCased c

/-- The characters that `c` lowers to, with `before` what precedes it, nearest first, and `after`
what follows. -/
def lowerAt (before : List Char) (c : Char) (after : List Char) : List Char :=
  if c = 'Σ' then
    if meetsCased before && !meetsCased after then ['ς'] else ['σ']
  else if c = 'İ' then ['i', '\u0307']
  else [lowerLetter c]

/-- The lower-case form of a text that `before` precedes, nearest first. -/
def lowerFrom (before : List Char) : List Char → List Char
  | [] => []
  | c :: after => lowerAt before c after ++ lowerFrom (c :: before) after

/-- The lower-case form of a name. -/
def lower (name : String) : String :=
  String.ofList (lowerFrom [] name.toList)

end SourceTally.Text
