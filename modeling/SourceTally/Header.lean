import SourceTally.Line

/-!
# File headers

The comment that a file opens with, a licence for example, is counted apart from other comments.
A policy says which comment that is: one block comment, or all comment lines up to the first line
that is none. The lines of a file pass through three phases. While searching, blank lines and a
first line that begins with `#!` are passed over where the policy allows it; inside the header, its
comment lines become header lines; and once done, nothing does.
-/

namespace SourceTally

/-- Which comment is taken for the header. -/
inductive HeaderStyle where
  /-- One block comment. -/
  | block
  /-- Comment lines of any kind, without a gap. -/
  | leading
  deriving DecidableEq, Repr

namespace HeaderStyle

/-- The name of the style in settings and options. -/
def name : HeaderStyle → String
  | .block => "block"
  | .leading => "leading"

/-- The style of a given name. -/
def ofName? (name : String) : Option HeaderStyle :=
  if name = "block" then some .block
  else if name = "leading" then some .leading
  else none

end HeaderStyle

/-- How the header of a file is found. -/
structure HeaderPolicy where
  /-- Headers are counted apart at all. -/
  enabled : Bool := true
  style : HeaderStyle := .block
  /-- Blank lines may come before the header. -/
  allowLeadingBlankLines : Bool := true
  /-- A first line that begins with `#!` may come before the header. -/
  allowShebang : Bool := true
  deriving DecidableEq, Repr

/-- How far the search for the header has got. -/
inductive HeaderPhase where
  | searching
  | inside
  | done
  deriving DecidableEq, Repr

namespace HeaderPolicy

/-- The policy that finds no header. -/
def disabled : HeaderPolicy :=
  { enabled := false }

/-- The phase before the first line. -/
def start (policy : HeaderPolicy) : HeaderPhase :=
  if policy.enabled then .searching else .done

/-- A comment line with which the header can begin. -/
def opensAt (policy : HeaderPolicy) (line : ScannedLine) : Bool :=
  match policy.style with
  | .leading => true
  | .block => line.beginsWithBlock

/-- The phase after a header line. A header that is one block comment ends with that comment. -/
def afterHeaderLine (policy : HeaderPolicy) (line : ScannedLine) : HeaderPhase :=
  match policy.style with
  | .leading => .inside
  | .block => if line.closedBlock || !line.state.isInBlock then .done else .inside

/-- The category of a line in its file, and the phase after it. The line is given by its number,
its text and its scan. -/
def advance (policy : HeaderPolicy) (phase : HeaderPhase) (number : Nat) (text : List Char)
    (line : ScannedLine) : Category × HeaderPhase :=
  match phase, line.category with
  | .done, category => (category, .done)
  | .searching, .blank => (.blank, if policy.allowLeadingBlankLines then .searching else .done)
  | .searching, category =>
    if number == 1 && policy.allowShebang && ['#', '!'].isPrefixOf text then
      (category, .searching)
    else if category == .comment && policy.opensAt line then
      (.header, policy.afterHeaderLine line)
    else (category, .done)
  | .inside, .comment => (.header, policy.afterHeaderLine line)
  | .inside, .blank => (.blank, if line.state.isInBlock then .inside else .done)
  | .inside, category => (category, .done)

end HeaderPolicy

end SourceTally
