/-!
# Lines

A line ends with a line feed, and one carriage return before the line feed belongs to the end. The
last line needs no end: whatever follows the last line feed is a line of its own unless it is
empty, and it keeps a carriage return.
-/

namespace SourceTally.Text

/-- The line without the carriage return that belongs to its end. -/
def dropReturn (line : List Char) : List Char :=
  if line.getLast? = some '\r' then line.dropLast else line

/-- The lines of a text, without their ends. -/
def lines (text : List Char) : List (List Char) :=
  match _h : text with
  | [] => []
  | c :: cs =>
    match _h' : (c :: cs).dropWhile (· ≠ '\n') with
    | [] => [c :: cs]
    | _ :: rest => dropReturn ((c :: cs).takeWhile (· ≠ '\n')) :: lines rest
termination_by text.length
decreasing_by
  have shorter := (List.dropWhile_sublist (l := c :: cs) (· ≠ '\n')).length_le
  rw [_h'] at shorter
  exact shorter

end SourceTally.Text
