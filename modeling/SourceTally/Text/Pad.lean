/-!
# Padding

Texts are set in columns by filling them up with spaces. Widths are numbers of characters. A text
that is wider than its column is left as it is.
-/

namespace SourceTally.Text

/-- The character so many times. -/
def fill (c : Char) (count : Nat) : String :=
  String.ofList (List.replicate count c)

/-- The text at the left of a column. -/
def padRight (width : Nat) (text : String) : String :=
  text ++ fill ' ' (width - text.length)

/-- The text at the right of a column. -/
def padLeft (width : Nat) (text : String) : String :=
  fill ' ' (width - text.length) ++ text

end SourceTally.Text
