import SourceTally.Text.Lowercase

/-!
# Language profiles

A profile says how a language writes comments and strings and which file names belong to it.
Delimiters are kept as lists of characters, since scanning compares them with the characters of a
line. Extensions are kept in lower case: `Profile.withExtensions` is how a profile gets them, so a
name's case never matters when a file is looked up.
-/

namespace SourceTally

/-- A delimiter, as its characters. -/
abbrev Token := List Char

/-- How the closing delimiter of a string may stand inside the string. -/
inductive Escape where
  /-- It cannot. -/
  | none
  /-- After the given character, which takes the meaning of any character that follows it. -/
  | char (c : Char)
  /-- Written twice. -/
  | doubled
  deriving DecidableEq, Repr

/-- The delimiters of a block comment. -/
structure BlockPair where
  opening : Token
  closing : Token
  /-- An opening delimiter inside the comment has to be closed too. -/
  nestable : Bool := false
  deriving DecidableEq, Repr

/-- The delimiters of a string. -/
structure StringPair where
  opening : Token
  closing : Token
  escape : Escape := .none
  /-- The string may go on past the end of a line. -/
  multiline : Bool := false
  deriving DecidableEq, Repr

/-- What is known of a language. -/
structure Profile where
  id : String
  name : String
  /-- Without the dot, in lower case. -/
  extensions : List String := []
  /-- Whole file names, in whatever case. -/
  fileNames : List String := []
  lineComments : List Token := []
  blockComments : List BlockPair := []
  strings : List StringPair := []
  deriving DecidableEq, Repr

namespace Profile

/-- The profile with further extensions, each in lower case. -/
def withExtensions (p : Profile) (extensions : List String) : Profile :=
  { p with extensions := p.extensions ++ extensions.map Text.lower }

end Profile

end SourceTally
