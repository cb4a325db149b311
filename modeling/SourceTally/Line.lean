import SourceTally.Scan.Line
import SourceTally.Text.Blank

/-!
# Line categories

A line is blank when it holds white space only, even inside a comment or a string. It is code when
any code shows on it, or any part of a string, white space included. Otherwise all that shows is
comment. The fourth category, header, is never given here: a header is a matter of where in a file
a comment stands.
-/

namespace SourceTally

/-- What a line counts as. -/
inductive Category where
  | blank
  | code
  | comment
  | header
  deriving DecidableEq, Repr

namespace Category

/-- The name of the category in structured output. -/
def name : Category → String
  | .blank => "blank"
  | .code => "code"
  | .comment => "comment"
  | .header => "header"

/-- The name of the category in listings. -/
def tag : Category → String
  | .blank => "BLANK"
  | .code => "CODE"
  | .comment => "COMM"
  | .header => "HEAD"

end Category

/-- Something left open, with the number of the line it was opened on. -/
inductive Warning where
  | unterminatedString (line : Nat)
  | unterminatedBlock (line : Nat)
  deriving DecidableEq, Repr

namespace Warning

/-- The line that the warning is about. -/
def line : Warning → Nat
  | .unterminatedString n => n
  | .unterminatedBlock n => n

/-- The name of the kind of warning in structured output. -/
def kind : Warning → String
  | .unterminatedString _ => "unterminated_string"
  | .unterminatedBlock _ => "unterminated_block_comment"

/-- The warning, said to a user. -/
def message : Warning → String
  | .unterminatedString n => "unterminated string literal at line " ++ toString n
  | .unterminatedBlock n =>
    "block comment opened at line " ++ toString n ++ " is never closed"

end Warning

/-- What is known of a line after it is classified. -/
structure LineResult where
  /-- The number of the line, from one on. -/
  line : Nat
  category : Category
  warning : Option Warning := none
  deriving DecidableEq, Repr

namespace Painted

/-- The character makes its line a line of code. -/
def showsCode : Char × Kind → Bool
  | (c, .code) => !Text.isSpace c
  | (_, .string) => true
  | _ => false

/-- The category of a painted line by itself. -/
def category (painted : Painted) : Category :=
  if painted.all (Text.isSpace ·.1) then .blank
  else if painted.any showsCode then .code
  else .comment

/-- A block comment comes before anything else but white space. -/
def beginsWithBlock (painted : Painted) : Bool :=
  match painted.dropWhile fun x => x.2 == .code && Text.isSpace x.1 with
  | (_, .blockComment) :: _ => true
  | _ => false

end Painted

namespace ScannedLine

/-- The category of the line by itself. -/
def category (line : ScannedLine) : Category :=
  Painted.category line.painted

/-- The line begins with a block comment, white space aside. -/
def beginsWithBlock (line : ScannedLine) : Bool :=
  Painted.beginsWithBlock line.painted

/-- The warning that the line is due, as the line of the given number. -/
def warning (line : ScannedLine) (number : Nat) : Option Warning :=
  if line.unterminatedString then some (.unterminatedString number) else none

end ScannedLine

/-- Classifies a line by itself and gives the state that the next line begins with. -/
def Profile.classifyLine (p : Profile) (state : ScanState) (number : Nat) (line : List Char) :
    Except Fault (LineResult × ScanState) := do
  let scanned ← p.scanLine state line
  return (⟨number, scanned.category, scanned.warning number⟩, scanned.state)

end SourceTally
