import SourceTally.Scan.Step

/-!
# Scanning a line

The steps of a scan paint a line: every character gets its kind. At the end of the line an escape
that is still waiting for its character takes the line break, and a string that may not go on past
the line is given up. `Profile.scanLine` puts both together.

A step takes at least one character, whatever its size says, so the scan ends for every profile.
For a valid profile no step has size zero.
-/

namespace SourceTally

/-- A line with the kind of each of its characters. -/
abbrev Painted := List (Char × Kind)

/-- How far the steps of a line got. -/
structure Run where
  painted : Painted
  state : ScanState
  closedBlock : Bool
  deriving DecidableEq, Repr

/-- A scanned line. -/
structure ScannedLine where
  painted : Painted
  /-- The state that the next line begins with. -/
  state : ScanState
  /-- A string that may not go on past the line was still open at its end. -/
  unterminatedString : Bool
  /-- A block comment ended on the line. -/
  closedBlock : Bool
  deriving DecidableEq, Repr

namespace Profile

/-- Takes steps until the characters are used up. -/
def run (p : Profile) (state : ScanState) (rest : List Char) : Except Fault Run :=
  match rest with
  | [] => .ok ⟨[], state, false⟩
  | c :: cs =>
    match p.step state (c :: cs) with
    | .error fault => .error fault
    | .ok step =>
      match p.run step.state (cs.drop (step.size - 1)) with
      | .error fault => .error fault
      | .ok more =>
        .ok
          { painted := (c :: cs.take (step.size - 1)).map (·, step.kind) ++ more.painted
            state := more.state
            closedBlock := step.closesBlock || more.closedBlock }
termination_by rest.length
decreasing_by simp only [List.length_cons, List.length_drop]; omega

/-- What the end of a line does to a state, and whether it gives up a string. -/
def endLine (p : Profile) (state : ScanState) : Except Fault (ScanState × Bool) :=
  match state with
  | .inString pair true => .ok (.inString pair false, false)
  | .inString pair false =>
    match p.strings[pair]? with
    | some s => .ok (if s.multiline then (state, false) else (.normal, true))
    | none => .error (.noSuchPair pair)
  | _ => .ok (state, false)

/-- Scans a line from the state that the line before it left behind. -/
def scanLine (p : Profile) (state : ScanState) (line : List Char) : Except Fault ScannedLine := do
  let r ← p.run state line
  let (state, unterminated) ← p.endLine r.state
  return ⟨r.painted, state, unterminated, r.closedBlock⟩

end Profile

end SourceTally
