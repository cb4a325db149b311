/-!
# White space

A line is blank when it holds nothing but white space, where white space is the Unicode property
of that name: 25 characters, of which core's `Char.isWhitespace` knows four. The set is closed, so
it is written out as conditions on the code point.
-/

namespace SourceTally.Text

/-- The character is white space. -/
def isSpace (c : Char) : Bool :=
  let n := c.toNat
  (0x09 ≤ n && n ≤ 0x0D) || n == 0x20 || n == 0x85 || n == 0xA0 || n == 0x1680 ||
    (0x2000 ≤ n && n ≤ 0x200A) || n == 0x2028 || n == 0x2029 || n == 0x202F || n == 0x205F ||
    n == 0x3000

/-- The text holds white space only; the empty text does. -/
def isBlank (text : List Char) : Bool :=
  text.all isSpace

@[simp]
theorem isBlank_nil : isBlank [] = true := rfl

@[simp]
theorem isBlank_cons (c : Char) (text : List Char) :
    isBlank (c :: text) = (isSpace c && isBlank text) := rfl

@[simp]
theorem isBlank_append (a b : List Char) : isBlank (a ++ b) = (isBlank a && isBlank b) :=
  List.all_append

end SourceTally.Text
