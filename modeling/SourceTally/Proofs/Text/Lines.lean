import SourceTally.Proofs.Basic
import SourceTally.Text.Lines

/-!
# The size of the lines of a text

A line takes a byte of its text at least: its end, or a character if it has none. So a text has no
more lines than bytes (`Text.length_lines_le`), and its lines have no more bytes than it has itself
(`Text.totalBytes_lines_le`).
-/

namespace SourceTally.Text

/-- A line does not grow when it loses its carriage return. -/
theorem byteLength_dropReturn_le (line : List Char) :
    byteLength (dropReturn line) ≤ byteLength line := by
  unfold dropReturn
  split
  · rw [List.dropLast_eq_take]
    have hbytes := byteLength_take_add_drop (line.length - 1) line
    omega
  · exact Nat.le_refl _

/-- A text is its first line, the end of that line and the rest. -/
theorem byteLength_of_dropWhile {text rest : List Char} {x : Char}
    (h : text.dropWhile (· ≠ '\n') = x :: rest) :
    byteLength text =
      byteLength (text.takeWhile (· ≠ '\n')) + byteLength [x] + byteLength rest := by
  conv_lhs => rw [← List.takeWhile_append_dropWhile (p := (· ≠ '\n')) (l := text), h]
  rw [byteLength_append, ← List.singleton_append, byteLength_append, Nat.add_assoc]

/-- A text has no more lines than bytes. -/
theorem length_lines_le (text : List Char) : (lines text).length ≤ byteLength text := by
  fun_induction lines text with
  | case1 => exact Nat.le_refl 0
  | case2 c cs => exact byteLength_pos (List.cons_ne_nil c cs)
  | case3 c cs x rest hrest ih =>
    have hsize := byteLength_of_dropWhile hrest
    have hend := byteLength_pos (List.cons_ne_nil x [])
    rw [List.length_cons]
    omega

/-- The lines of a text have no more bytes than the text. -/
theorem totalBytes_lines_le (text : List Char) : totalBytes (lines text) ≤ byteLength text := by
  fun_induction lines text with
  | case1 => exact Nat.le_refl 0
  | case2 c cs => simp [totalBytes]
  | case3 c cs x rest hrest ih =>
    have hsize := byteLength_of_dropWhile hrest
    have hline := byteLength_dropReturn_le ((c :: cs).takeWhile (· ≠ '\n'))
    rw [totalBytes_cons]
    omega

end SourceTally.Text
