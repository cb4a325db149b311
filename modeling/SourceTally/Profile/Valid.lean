import SourceTally.Profile.Basic
import SourceTally.Text.Blank

/-!
# Valid profiles

A profile is usable when every delimiter has a character, so that a scan always moves on, and when
no two of its rules contradict each other: a nestable comment must tell opening from closing, and
an escape character must not begin the delimiter that it escapes. `Profile.fault?` finds the first
rule that a profile breaks, in the order of the fields.
-/

namespace SourceTally

/-- A rule that a profile, or the declaration of one, breaks. -/
inductive ProfileFault where
  | emptyId
  | badExtension
  | emptyLineComment
  | emptyBlockDelimiter
  | sameNestableDelimiters (opening : Token)
  | emptyStringDelimiter
  | escapeBeginsClosing (escape : Char) (closing : Token)
  | unknownEscape (text : String)
  deriving DecidableEq, Repr

/-- The rule, said to a user. -/
def ProfileFault.message : ProfileFault → String
  | .emptyId => "language id is empty"
  | .badExtension => "extensions must be non-empty and given without a leading dot"
  | .emptyLineComment => "empty line comment token"
  | .emptyBlockDelimiter => "empty block comment delimiter"
  | .sameNestableDelimiters opening =>
    "nestable block comment '" ++ String.ofList opening ++
      "' has identical open and close tokens"
  | .emptyStringDelimiter => "empty string delimiter"
  | .escapeBeginsClosing escape closing =>
    "escape character '" ++ escape.toString ++ "' collides with closing delimiter '" ++
      String.ofList closing ++ "'"
  | .unknownEscape text =>
    "escape must be a single character, \"double\" or \"none\", got '" ++ text ++ "'"

/-- The first rule that a block comment breaks. -/
def BlockPair.fault? (b : BlockPair) : Option ProfileFault :=
  if b.opening.isEmpty || b.closing.isEmpty then some .emptyBlockDelimiter
  else if b.nestable && b.opening == b.closing then some (.sameNestableDelimiters b.opening)
  else none

/-- The first rule that a string breaks. -/
def StringPair.fault? (s : StringPair) : Option ProfileFault :=
  if s.opening.isEmpty || s.closing.isEmpty then some .emptyStringDelimiter
  else
    match s.escape with
    | .char c => if s.closing.head? == some c then some (.escapeBeginsClosing c s.closing) else none
    | _ => none

namespace Profile

/-- The first rule that the profile breaks. -/
def fault? (p : Profile) : Option ProfileFault :=
  if Text.isBlank p.id.toList then some .emptyId
  else if p.extensions.any fun e => e.isEmpty || e.toList.head? == some '.' then
    some .badExtension
  else if p.lineComments.any (·.isEmpty) then some .emptyLineComment
  else p.blockComments.findSome? (·.fault?) <|> p.strings.findSome? (·.fault?)

/-- The profile breaks no rule. -/
def Valid (p : Profile) : Prop :=
  p.fault? = none

instance (p : Profile) : Decidable p.Valid :=
  inferInstanceAs (Decidable (p.fault? = none))

end Profile

end SourceTally
