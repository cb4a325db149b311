/-!
# Glob patterns

A pattern is matched against the whole text of a path. A question mark stands for any character, a
star for any text, slashes included in both; brackets stand for one of the characters they list, or
one they do not list after an exclamation mark. A double star must be a whole component, and stands
for any number of whole components or, where the text ends inside it, for all that is left.

`Glob.ofString` reads a pattern and reports where it breaks a rule, in characters. `Glob.verdict`
matches in a time that grows with the lengths of pattern and text, however many stars there are: it
tells a text that does not match from one that is used up, where longer stars are of no help.
-/

namespace SourceTally

/-- A character or a range of characters between brackets. -/
inductive CharSet where
  | one (c : Char)
  | range (first last : Char)
  deriving DecidableEq, Repr

/-- The set holds the character. -/
def CharSet.holds : CharSet → Char → Bool
  | .one a, c => c == a
  | .range first last, c => first ≤ c && c ≤ last

/-- A part of a pattern. -/
inductive GlobToken where
  | char (c : Char)
  | anyChar
  | anyText
  | anyComponents
  | oneOf (sets : List CharSet)
  | noneOf (sets : List CharSet)
  deriving DecidableEq, Repr

/-- A pattern. -/
structure Glob where
  tokens : List GlobToken
  deriving DecidableEq, Repr

namespace Glob

/-- A rule that a pattern breaks. -/
inductive Rule where
  | stars
  | component
  | range
  deriving DecidableEq, Repr

/-- A broken rule with the place in the pattern, in characters. -/
structure Fault where
  position : Nat
  rule : Rule
  deriving DecidableEq, Repr

/-- The rule, said to a user. -/
def Rule.message : Rule → String
  | .stars => "wildcards are either regular `*` or recursive `**`"
  | .component => "recursive wildcards must form a single path component"
  | .range => "invalid range pattern"

/-- The fault, said to a user. -/
def Fault.message (f : Fault) : String :=
  "Pattern syntax error near position " ++ toString f.position ++ ": " ++ f.rule.message

/-- The sets that the characters between brackets describe. -/
def charSets : List Char → List CharSet
  | a :: '-' :: b :: rest => .range a b :: charSets rest
  | a :: rest => .one a :: charSets rest
  | [] => []

/-- The text up to the first closing bracket, and what follows the bracket. -/
def toBracket : List Char → Option (List Char × List Char)
  | [] => none
  | ']' :: rest => some ([], rest)
  | c :: rest => (toBracket rest).map fun (inner, after) => (c :: inner, after)

/-- The class that follows an opening bracket, and what follows it. The first character of the
class is taken as it is, even if it is a closing bracket. -/
def bracket? : List Char → Option (GlobToken × List Char)
  | '!' :: c :: rest =>
    (toBracket rest).map fun (inner, after) => (.noneOf (charSets (c :: inner)), after)
  | '!' :: [] => none
  | c :: rest => (toBracket rest).map fun (inner, after) => (.oneOf (charSets (c :: inner)), after)
  | [] => none

theorem length_toBracket {cs inner after : List Char} (h : toBracket cs = some (inner, after)) :
    after.length < cs.length := by
  induction cs generalizing inner after with
  | nil => simp [toBracket] at h
  | cons c cs ih =>
    unfold toBracket at h
    split at h
    · simp_all
    · simp_all
    · rename_i heq
      obtain ⟨⟨inner', after'⟩, hx, hy⟩ := Option.map_eq_some_iff.1 h
      cases heq
      cases hy
      have := ih hx
      simp only [List.length_cons]
      omega

theorem length_bracket? {cs after : List Char} {t : GlobToken}
    (h : bracket? cs = some (t, after)) : after.length < cs.length := by
  unfold bracket? at h
  split at h
  · obtain ⟨⟨inner, after'⟩, hx, hy⟩ := Option.map_eq_some_iff.1 h
    cases hy
    have := length_toBracket hx
    simp only [List.length_cons]
    omega
  · cases h
  · obtain ⟨⟨inner, after'⟩, hx, hy⟩ := Option.map_eq_some_iff.1 h
    cases hy
    have := length_toBracket hx
    simp only [List.length_cons]
    omega
  · cases h

/-- Reads the rest of a pattern. `position` is the number of characters read and `afterSlash` says
whether a component begins here. -/
def tokensFrom (position : Nat) (afterSlash : Bool) (cs : List Char) :
    Except Fault (List GlobToken) :=
  match cs with
  | [] => .ok []
  | '?' :: rest => do return .anyChar :: (← tokensFrom (position + 1) false rest)
  | '*' :: '*' :: '*' :: _ => .error ⟨position + 2, .stars⟩
  | '*' :: '*' :: rest =>
    if !afterSlash then .error ⟨position - 1, .component⟩
    else
      match rest with
      | [] => .ok [.anyComponents]
      | '/' :: rest => do return .anyComponents :: (← tokensFrom (position + 3) true rest)
      | _ => .error ⟨position + 2, .component⟩
  | '*' :: rest => do return .anyText :: (← tokensFrom (position + 1) false rest)
  | '[' :: rest =>
    match _h : bracket? rest with
    | none => .error ⟨position, .range⟩
    | some (token, after) => do
      return token :: (← tokensFrom (position + 1 + (rest.length - after.length)) false after)
  | c :: rest => do return .char c :: (← tokensFrom (position + 1) (c == '/') rest)
termination_by cs.length
decreasing_by
  all_goals first
    | (have shorter := length_bracket? _h; simp only [List.length_cons]; omega)
    | (simp only [List.length_cons]; omega)

/-- Reads a pattern. -/
def ofString (pattern : String) : Except Fault Glob := do
  return ⟨← tokensFrom 0 true pattern.toList⟩

/-- How tokens fare on a text. -/
inductive Verdict where
  /-- They match the whole of it. -/
  | accepts
  /-- They do not, and may still match where the text begins further on. -/
  | fails
  /-- The text ends before they do. They match no shorter text of the same end either. -/
  | ends
  deriving DecidableEq, Repr

/-- The first verdict, or the second where there is hope for it. -/
def Verdict.orElse (first : Verdict) (second : Unit → Verdict) : Verdict :=
  match first with
  | .fails => second ()
  | verdict => verdict

/-- The token stands for the one character. -/
def admits : GlobToken → Char → Bool
  | .char a, c => c == a
  | .oneOf sets, c => sets.any (·.holds c)
  | .noneOf sets, c => !sets.any (·.holds c)
  | _, _ => true

/-- How tokens fare on a text. Where a star is reached, no star before it needs to stand for more
than it does: what follows a star can begin anywhere further on. -/
def verdict : List GlobToken → List Char → Verdict
  | [], [] => .accepts
  | [], _ :: _ => .fails
  | .anyText :: tokens, text => anywhere tokens text
  | .anyComponents :: tokens, text => (verdict tokens text).orElse fun _ => behindSlash tokens text
  | _ :: _, [] => .ends
  | token :: tokens, c :: text => if admits token c then verdict tokens text else .fails
where
  /-- How the tokens fare on the first end of the text where there is hope. -/
  anywhere (tokens : List GlobToken) : List Char → Verdict
    | [] => verdict tokens []
    | c :: text => (verdict tokens (c :: text)).orElse fun _ => anywhere tokens text
  /-- How the tokens fare behind the first slash where there is hope, or behind all of the text. -/
  behindSlash (tokens : List GlobToken) : List Char → Verdict
    | [] => verdict tokens []
    | c :: text =>
      if c = '/' then (verdict tokens text).orElse fun _ => behindSlash tokens text
      else behindSlash tokens text

/-- The pattern matches the whole text. -/
def accepts (g : Glob) (text : String) : Bool :=
  verdict g.tokens text.toList = .accepts

end Glob

end SourceTally
