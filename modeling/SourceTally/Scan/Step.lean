import SourceTally.Profile.Opening
import SourceTally.Scan.State

/-!
# Steps of a scan

A step looks at what is left of a line and decides how many characters come next, what they are,
and which state follows. Inside a string the escape is tried before the closing delimiter, and
inside a nestable comment the opening delimiter is, so `escape` and `nestable` mean what they say
whatever the delimiters look like.
-/

namespace SourceTally

/-- What a step does with the characters in front of it. -/
structure Step where
  /-- The number of characters it takes. -/
  size : Nat
  kind : Kind
  /-- The state after them. -/
  state : ScanState
  /-- It closes a block comment for good. -/
  closesBlock : Bool := false
  deriving DecidableEq, Repr

/-- The step inside a string. -/
def StringPair.step (s : StringPair) (pair : Nat) (escaped : Bool) (rest : List Char) : Step :=
  if escaped then ⟨1, .string, .inString pair false, false⟩
  else if (match s.escape with | .char c => rest.head? == some c | _ => false) then
    ⟨1, .string, .inString pair true, false⟩
  else if s.escape == .doubled && (s.closing ++ s.closing).isPrefixOf rest then
    ⟨2 * s.closing.length, .string, .inString pair false, false⟩
  else if s.closing.isPrefixOf rest then ⟨s.closing.length, .string, .normal, false⟩
  else ⟨1, .string, .inString pair false, false⟩

/-- The step inside a block comment. -/
def BlockPair.step (b : BlockPair) (pair depth : Nat) (rest : List Char) : Except Fault Step :=
  if b.nestable && b.opening.isPrefixOf rest then
    if depth < maxDepth then
      .ok ⟨b.opening.length, .blockComment, .inBlock pair (depth + 1), false⟩
    else .error .tooDeep
  else if b.closing.isPrefixOf rest then
    if 1 < depth then .ok ⟨b.closing.length, .blockComment, .inBlock pair (depth - 1), false⟩
    else .ok ⟨b.closing.length, .blockComment, .normal, true⟩
  else .ok ⟨1, .blockComment, .inBlock pair depth, false⟩

namespace Profile

/-- The step outside comments and strings. A line comment takes all that is left. -/
def normalStep (p : Profile) (rest : List Char) : Step :=
  match p.opening? rest with
  | some (.string pair, token) => ⟨token.length, .string, .inString pair false, false⟩
  | some (.block pair, token) => ⟨token.length, .blockComment, .inBlock pair 1, false⟩
  | some (.line, _) => ⟨rest.length, .lineComment, .normal, false⟩
  | none => ⟨1, .code, .normal, false⟩

/-- The step from a state. -/
def step (p : Profile) (state : ScanState) (rest : List Char) : Except Fault Step :=
  match state with
  | .normal => .ok (p.normalStep rest)
  | .inBlock pair depth =>
    match p.blockComments[pair]? with
    | some b => b.step pair depth rest
    | none => .error (.noSuchPair pair)
  | .inString pair escaped =>
    match p.strings[pair]? with
    | some s => .ok (s.step pair escaped rest)
    | none => .error (.noSuchPair pair)

end Profile

end SourceTally
