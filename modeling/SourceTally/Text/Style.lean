/-!
# Emphasis

Terminals show text in bold or in colour between escape sequences. Where colour is not wanted, the
text is left as it is.
-/

namespace SourceTally.Text

/-- The text between an escape sequence of the given number and the one that ends it. -/
def emphasize (color : Bool) (number : Nat) (text : String) : String :=
  if color then "\x1b[" ++ toString number ++ "m" ++ text ++ "\x1b[0m" else text

/-- The text in bold. -/
def bold (color : Bool) (text : String) : String :=
  emphasize color 1 text

/-- The text in yellow. -/
def yellow (color : Bool) (text : String) : String :=
  emphasize color 33 text

end SourceTally.Text
