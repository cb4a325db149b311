import SourceTally.Proofs.Scan.Escaped

/-!
# The first closing delimiter

A comment that does not nest and a string without an escape have nothing inside them but their
closing delimiter that a scan looks at (`Profile.Unescaped`). So the scan crosses the line one
character at a time up to the first place where the delimiter stands (`Profile.Unescaped.crosses`),
however the delimiter overlaps itself and whatever else the text holds. What is behind it is scanned
as if it stood alone, and where it stands nowhere the whole line is inside
(`Profile.scanLine_unescaped`).
-/

namespace SourceTally

/-- The token stands at place `i` of the line and at no place before. -/
structure Text.FirstAt (token line : List Char) (i : Nat) : Prop where
  here : token <+: line.drop i
  first : ∀ j < i, ¬ token <+: line.drop j

namespace Text

variable {token line : List Char} {i : Nat}

theorem infix_iff_exists_drop : token <:+: line ↔ ∃ i, token <+: line.drop i := by
  rw [List.infix_iff_prefix_suffix]
  constructor
  · rintro ⟨rest, htoken, hrest⟩
    exact ⟨_, List.suffix_iff_eq_drop.1 hrest ▸ htoken⟩
  · rintro ⟨i, htoken⟩
    exact ⟨_, htoken, List.drop_suffix i line⟩

/-- A token that stands somewhere in a line stands at a first place. -/
theorem exists_firstAt (h : token <:+: line) : ∃ i, FirstAt token line i := by
  have hsome := infix_iff_exists_drop.1 h
  exact ⟨Nat.find hsome, Nat.find_spec hsome, fun _ => Nat.find_min hsome⟩

theorem FirstAt.unique {j : Nat} (h : FirstAt token line i) (h' : FirstAt token line j) : i = j := by
  rcases Nat.lt_trichotomy i j with hlt | heq | hgt
  · exact absurd h.here (h'.first i hlt)
  · exact heq
  · exact absurd h'.here (h.first j hgt)

/-- The line in front of the token, the token, and the line behind it. -/
theorem FirstAt.line_eq (h : FirstAt token line i) :
    line = line.take i ++ (token ++ line.drop (i + token.length)) := by
  have hrest : token ++ line.drop (i + token.length) = line.drop i := by
    rw [← List.drop_drop]
    exact (List.prefix_append_drop h.here).symm
  rw [hrest, List.take_append_drop]

theorem FirstAt.take_eq (h : FirstAt token line i) :
    line.take (i + token.length) = line.take i ++ token := by
  rw [List.take_add, ← List.prefix_iff_eq_take.1 h.here]

end Text

namespace Profile

open Text

/-- The state is inside a comment or a string that the token closes and nothing else changes.
`closes` when the token ends a block comment. -/
inductive Unescaped (p : Profile) : ScanState → Token → Kind → (closes : Bool) → Prop where
  | block {pair : Nat} {b : BlockPair} : p.blockComments[pair]? = some b → b.nestable = false →
      p.Unescaped (.inBlock pair 1) b.closing .blockComment true
  | string {pair : Nat} {s : StringPair} : p.strings[pair]? = some s → s.escape = .none →
      p.Unescaped (.inString pair false) s.closing .string false

namespace Unescaped

variable {p : Profile} {state next : ScanState} {closing : Token} {kind : Kind}
  {closes unterminated : Bool} {rest text after line : List Char} {i : Nat}

theorem closing_ne_nil (h : p.Unescaped state closing kind closes) (valid : p.Valid) :
    closing ≠ [] := by
  cases h with
  | block hb => exact (valid.block hb).closing_ne_nil
  | string hs => exact (valid.string hs).closing_ne_nil

/-- Where the closing delimiter does not stand, one character is taken, whatever it begins. -/
theorem moves_of_not_closing (h : p.Unescaped state closing kind closes)
    (hopen : ¬ closing <+: rest) : p.Moves rest state ⟨1, kind, state, false⟩ := by
  cases h with
  | block hb hnest =>
    refine .inBlock hb (fun hopening => ?_) hopen
    cases hnest.symm.trans hopening.1
  | string hs hescape =>
    refine .inString hs (fun c hc => ?_) hopen
    cases hescape.symm.trans hc

/-- Where it stands, it is taken and leads out. -/
theorem moves_of_closing (h : p.Unescaped state closing kind closes) (hclose : closing <+: rest) :
    p.Moves rest state ⟨closing.length, kind, .normal, closes⟩ := by
  cases h with
  | block hb hnest =>
    refine .closeBlock hb (fun hopening => ?_) hclose (Nat.lt_irrefl 1)
    cases hnest.symm.trans hopening.1
  | string hs hescape =>
    refine .closeString hs (fun c hc => ?_) (fun hdoubled => ?_) hclose
    · cases hescape.symm.trans hc
    · cases hescape.symm.trans hdoubled.1

/-- Up to the first closing delimiter the scan crosses the line one character at a time. -/
theorem crosses (h : p.Unescaped state closing kind closes)
    (hopen : ∀ j < text.length, ¬ closing <+: (text ++ after).drop j) :
    p.Crosses kind after state text state := by
  induction text with
  | nil => exact .nil
  | cons c text ih =>
    have hhere : ¬ closing <+: c :: (text ++ after) := hopen 0 (Nat.succ_pos _)
    refine .cons (h.moves_of_not_closing hhere) (ih fun j hj => ?_)
    exact hopen (j + 1) (Nat.succ_lt_succ hj)

/-- The line up to the end of the first closing delimiter is inside, and what is behind it is scanned
as if it stood alone. -/
theorem exists_scanLine_of_firstAt (h : p.Unescaped state closing kind closes) (valid : p.Valid)
    (short : byteLength line < 2 ^ 32) (hfirst : FirstAt closing line i) :
    ∃ rest, p.scanLine .normal (line.drop (i + closing.length)) = .ok rest ∧
      p.scanLine state line =
        .ok (rest.behind ((line.take (i + closing.length)).map (·, kind)) closes) := by
  obtain ⟨rest, hrest⟩ :=
    exists_scanLine_of_suffix valid (List.drop_suffix (i + closing.length) line) short
  have hcrosses : p.Crosses kind (closing ++ line.drop (i + closing.length)) state (line.take i)
      state := by
    refine h.crosses fun j hj => ?_
    rw [← hfirst.line_eq]
    exact hfirst.first j (Nat.lt_of_lt_of_le hj (List.length_take_le i line))
  have hscan := hcrosses.scanLine_of_exit valid (h.closing_ne_nil valid)
    (h.moves_of_closing (List.prefix_append _ _)) hrest
  rw [← hfirst.line_eq, ← hfirst.take_eq] at hscan
  exact ⟨rest, hrest, hscan⟩

/-- A line without the closing delimiter is inside as a whole. -/
theorem scanLine_of_not_closing (h : p.Unescaped state closing kind closes) (valid : p.Valid)
    (hopen : ¬ closing <:+: line) (hend : p.Ends state next unterminated) :
    p.scanLine state line = .ok ⟨line.map (·, kind), next, unterminated, false⟩ := by
  have hcrosses : p.Crosses kind [] state line state := by
    refine h.crosses fun j _ hclose => hopen (infix_iff_exists_drop.2 ⟨j, ?_⟩)
    rwa [List.append_nil] at hclose
  exact hcrosses.scanLine_of_ends valid hend

end Unescaped

/-- Where a comment that does not nest and a string without an escape end. If the closing delimiter
stands in the line, everything up to the end of its first occurrence is inside, and what is behind it
is scanned as if it stood alone. If it does not, the whole line is inside, and the comment or the
string is carried to the next line, but for a string that may not be, which is given up. -/
theorem scanLine_unescaped (p : Profile) (line : List Char) (valid : p.Valid)
    (short : byteLength line < 2 ^ 32) :
    (∀ pair b, p.blockComments[pair]? = some b → b.nestable = false →
      (b.closing <:+: line → ∃ i rest, FirstAt b.closing line i ∧
        p.scanLine .normal (line.drop (i + b.closing.length)) = .ok rest ∧
        p.scanLine (.inBlock pair 1) line =
          .ok (rest.behind ((line.take (i + b.closing.length)).map (·, .blockComment)) true)) ∧
      (¬ b.closing <:+: line → p.scanLine (.inBlock pair 1) line =
        .ok ⟨line.map (·, .blockComment), .inBlock pair 1, false, false⟩)) ∧
    ∀ pair s, p.strings[pair]? = some s → s.escape = .none →
      (s.closing <:+: line → ∃ i rest, FirstAt s.closing line i ∧
        p.scanLine .normal (line.drop (i + s.closing.length)) = .ok rest ∧
        p.scanLine (.inString pair false) line =
          .ok (rest.behind ((line.take (i + s.closing.length)).map (·, .string)) false)) ∧
      (¬ s.closing <:+: line → p.scanLine (.inString pair false) line =
        .ok ⟨line.map (·, .string), if s.multiline then .inString pair false else .normal,
          !s.multiline, false⟩) := by
  have hcloses : ∀ {state closing kind closes}, p.Unescaped state closing kind closes →
      closing <:+: line → ∃ i rest, FirstAt closing line i ∧
        p.scanLine .normal (line.drop (i + closing.length)) = .ok rest ∧
        p.scanLine state line =
          .ok (rest.behind ((line.take (i + closing.length)).map (·, kind)) closes) := by
    intro state closing kind closes hinside hclosing
    obtain ⟨i, hfirst⟩ := exists_firstAt hclosing
    obtain ⟨rest, hrest, hscan⟩ := hinside.exists_scanLine_of_firstAt valid short hfirst
    exact ⟨i, rest, hfirst, hrest, hscan⟩
  refine ⟨fun pair b hb hnest => ⟨hcloses (.block hb hnest), fun hopen => ?_⟩,
    fun pair s hs hescape => ⟨hcloses (.string hs hescape), fun hopen => ?_⟩⟩
  · exact (Unescaped.block hb hnest).scanLine_of_not_closing valid hopen .inBlock
  · cases hm : s.multiline with
    | true =>
      exact (Unescaped.string hs hescape).scanLine_of_not_closing valid hopen (.multiline hs hm)
    | false =>
      exact (Unescaped.string hs hescape).scanLine_of_not_closing valid hopen (.givenUp hs hm)

/-- A profile with a comment that does not nest and two strings without an escape, of which one goes
on past its line. -/
def raw : Profile where
  id := "raw"
  name := "Raw"
  lineComments := [['#']]
  blockComments := [⟨['/', '*'], ['*', '/'], false⟩]
  strings := [⟨['|', '|', '|'], ['|', '|', '|'], .none, true⟩, ⟨['"'], ['"'], .none, false⟩]

/-- The profile without escapes is valid. -/
theorem raw_valid : raw.Valid := by decide

/-- Opening delimiters inside a comment count for nothing. Of four bars in a row the first three
close a string, and the last one is code. Without a closing delimiter, one string is carried to the
next line and the other is given up. -/
theorem scanLine_unescaped_raw :
    raw.Valid ∧
      (∃ rest, raw.scanLine .normal " */".toList = .ok rest ∧
        raw.scanLine (.inBlock 0 1) "/* # \" é **/ */".toList =
          .ok (rest.behind ("/* # \" é **/".toList.map (·, .blockComment)) true)) ∧
      (∃ rest, raw.scanLine .normal "| # y".toList = .ok rest ∧
        raw.scanLine (.inString 0 false) "|| x |||| # y".toList =
          .ok (rest.behind ("|| x |||".toList.map (·, .string)) false)) ∧
      raw.scanLine (.inString 0 false) "|| /*".toList =
        .ok ⟨"|| /*".toList.map (·, .string), .inString 0 false, false, false⟩ ∧
      raw.scanLine (.inString 1 false) "|| /*".toList =
        .ok ⟨"|| /*".toList.map (·, .string), .normal, true, false⟩ := by
  refine ⟨raw_valid, ?_, ?_, ?_, ?_⟩
  · obtain ⟨i, rest, hi, hrest, hscan⟩ := ((scanLine_unescaped raw "/* # \" é **/ */".toList
      raw_valid (by decide)).1 0 _ rfl rfl).1 (by decide)
    obtain rfl : i = 10 := hi.unique ⟨by decide, by decide⟩
    exact ⟨rest, hrest, hscan⟩
  · obtain ⟨i, rest, hi, hrest, hscan⟩ := ((scanLine_unescaped raw "|| x |||| # y".toList
      raw_valid (by decide)).2 0 _ rfl rfl).1 (by decide)
    obtain rfl : i = 5 := hi.unique ⟨by decide, by decide⟩
    exact ⟨rest, hrest, hscan⟩
  · exact ((scanLine_unescaped raw "|| /*".toList raw_valid (by decide)).2 0 _ rfl rfl).2
      (by decide)
  · exact ((scanLine_unescaped raw "|| /*".toList raw_valid (by decide)).2 1 _ rfl rfl).2
      (by decide)

end Profile

end SourceTally
