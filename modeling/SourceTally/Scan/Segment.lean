import SourceTally.Scan.Line
import SourceTally.Text.Utf8

/-!
# Segments

Neighbouring characters of one kind make up a segment. Where a segment stands in its line is given
in bytes of UTF-8.
-/

namespace SourceTally

/-- A run of characters of one kind. -/
structure Segment where
  kind : Kind
  /-- The number of bytes before it. -/
  start : Nat
  text : List Char
  deriving DecidableEq, Repr

namespace Segment

/-- The number of bytes up to its end. -/
def stop (s : Segment) : Nat :=
  s.start + Text.byteLength s.text

/-- The segments of a painted text that stands behind `start` bytes. -/
def ofPaintedFrom (start : Nat) : Painted → List Segment
  | [] => []
  | (c, kind) :: rest =>
    match ofPaintedFrom (start + c.utf8Size) rest with
    | [] => [⟨kind, start, [c]⟩]
    | s :: more =>
      if s.kind = kind then ⟨kind, start, c :: s.text⟩ :: more
      else ⟨kind, start, [c]⟩ :: s :: more

/-- The segments of a painted line. -/
def ofPainted (painted : Painted) : List Segment :=
  ofPaintedFrom 0 painted

end Segment

/-- The segments of a scanned line. -/
def ScannedLine.segments (line : ScannedLine) : List Segment :=
  Segment.ofPainted line.painted

end SourceTally
