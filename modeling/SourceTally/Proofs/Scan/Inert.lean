import SourceTally.Proofs.Scan.Run

/-!
# Characters that mean nothing

A character that begins no delimiter and is no escape means nothing to a scan (`Profile.Inert`).
Wherever it stands it is taken alone, it is of the kind of what is open there (`ScanState.kind`),
and the state stays as it is, except that an escape that was waiting has its character
(`ScanState.settle`). `Profile.moves_of_inert` says so as a step by the rules.

The end of a line that gives up no string does to the state what such a character does
(`Profile.Ends.eq_settle`).
-/

namespace SourceTally

/-- The escape character, if the closing delimiter is escaped by one. -/
def Escape.char? : Escape → Option Char
  | .char c => some c
  | .none | .doubled => Option.none

namespace ScanState

/-- The kind of a character that is neither part of a delimiter nor of a line comment. -/
def kind : ScanState → Kind
  | .normal => .code
  | .inBlock _ _ => .blockComment
  | .inString _ _ => .string

/-- The state when an escape that was waiting has its character. -/
def settle : ScanState → ScanState
  | .inString pair _ => .inString pair false
  | state => state

/-- What has no escape waiting stays as it is. -/
theorem settle_eq_of_settled {state : ScanState} (h : state.Settled) : state.settle = state := by
  cases state with
  | normal | inBlock => rfl
  | inString pair escaped =>
    have hescaped : escaped = false := h
    rw [hescaped]
    rfl

@[simp]
theorem kind_settle (state : ScanState) : state.settle.kind = state.kind := by
  cases state with
  | normal | inBlock | inString => rfl

end ScanState

namespace Profile

variable {p : Profile} {state next : ScanState} {rest : List Char} {pair : Nat} {b : BlockPair}
  {s : StringPair} {token : Token} {c : Char}

/-! ## Delimiters and escapes -/

/-- All delimiters of the profile, opening and closing. -/
def delimiters (p : Profile) : List Token :=
  p.lineComments ++ p.blockComments.flatMap (fun b => [b.opening, b.closing]) ++
    p.strings.flatMap fun s => [s.opening, s.closing]

/-- The escape characters of the profile's strings. -/
def escapes (p : Profile) : List Char :=
  p.strings.filterMap (·.escape.char?)

/-- The delimiters of a block comment are delimiters of the profile. -/
theorem mem_delimiters_of_block (hb : p.blockComments[pair]? = some b) :
    b.opening ∈ p.delimiters ∧ b.closing ∈ p.delimiters := by
  have hmem : ∀ t ∈ [b.opening, b.closing], t ∈ p.delimiters := by
    intro t ht
    refine List.mem_append_left _ (List.mem_append_right _ ?_)
    exact List.mem_flatMap.2 ⟨b, List.mem_of_getElem? hb, ht⟩
  exact ⟨hmem _ (.head _), hmem _ (.tail _ (.head _))⟩

/-- The delimiters of a string are delimiters of the profile. -/
theorem mem_delimiters_of_string (hs : p.strings[pair]? = some s) :
    s.opening ∈ p.delimiters ∧ s.closing ∈ p.delimiters := by
  have hmem : ∀ t ∈ [s.opening, s.closing], t ∈ p.delimiters := by
    intro t ht
    exact List.mem_append_right _ (List.mem_flatMap.2 ⟨s, List.mem_of_getElem? hs, ht⟩)
  exact ⟨hmem _ (.head _), hmem _ (.tail _ (.head _))⟩

/-- What opens something is a delimiter of the profile. -/
theorem mem_delimiters_of_declares {o : Opening} (h : p.Declares token o) :
    token ∈ p.delimiters := by
  cases o with
  | string pair =>
    obtain ⟨s, hs, rfl⟩ := h
    exact (mem_delimiters_of_string hs).1
  | block pair =>
    obtain ⟨b, hb, rfl⟩ := h
    exact (mem_delimiters_of_block hb).1
  | line => exact List.mem_append_left _ (List.mem_append_left _ h)

/-- The escape character of a string is one of the profile's. -/
theorem mem_escapes (hs : p.strings[pair]? = some s) (hc : s.escape = .char c) : c ∈ p.escapes :=
  List.mem_filterMap.2 ⟨s, List.mem_of_getElem? hs, by rw [hc]; rfl⟩

/-- A valid profile has no empty delimiter. -/
theorem Valid.delimiter_ne_nil (valid : p.Valid) (h : token ∈ p.delimiters) : token ≠ [] := by
  simp only [delimiters, List.mem_append, List.mem_flatMap, List.mem_cons, List.not_mem_nil,
    or_false] at h
  rcases h with (hline | ⟨b, hb, htoken⟩) | ⟨s, hs, htoken⟩
  · exact valid.parts.1 token hline
  · have usable := BlockPair.usable_of_fault? (valid.parts.2.1 b hb)
    rcases htoken with rfl | rfl
    · exact usable.opening_ne_nil
    · exact usable.closing_ne_nil
  · have usable := StringPair.usable_of_fault? (valid.parts.2.2 s hs)
    rcases htoken with rfl | rfl
    · exact usable.opening_ne_nil
    · exact usable.closing_ne_nil

/-! ## Inert characters -/

/-- The character begins no delimiter and is no escape. -/
structure Inert (p : Profile) (c : Char) : Prop where
  begins_none : ∀ token ∈ p.delimiters, token.head? ≠ some c
  not_escape : c ∉ p.escapes

/-- No delimiter stands where an inert character does. -/
theorem Inert.not_prefix (inert : p.Inert c) (valid : p.Valid) (h : token ∈ p.delimiters) :
    ¬ token <+: c :: rest := by
  intro hprefix
  obtain ⟨a, as, rfl⟩ := List.exists_cons_of_ne_nil (valid.delimiter_ne_nil h)
  obtain ⟨rfl, -⟩ := List.cons_prefix_cons.1 hprefix
  exact inert.begins_none _ h rfl

/-- Nothing opens where an inert character stands. -/
theorem Inert.opening?_eq_none (inert : p.Inert c) (valid : p.Valid) :
    p.opening? (c :: rest) = none := by
  cases hopen : p.opening? (c :: rest) with
  | none => rfl
  | some found =>
    obtain ⟨hdeclares, hprefix⟩ := declares_of_opening? hopen
    exact absurd hprefix (inert.not_prefix valid (mem_delimiters_of_declares hdeclares))

/-- An inert character is taken alone, as a part of what is open, and leaves the state as it is but
for an escape that was waiting. -/
theorem moves_of_inert (valid : p.Valid) (inert : p.Inert c) (range : state.InRange p)
    (rest : List Char) : p.Moves (c :: rest) state ⟨1, state.kind, state.settle, false⟩ := by
  cases state with
  | normal => exact .code (inert.opening?_eq_none valid)
  | inBlock pair depth =>
    have hb := List.getElem?_eq_getElem range
    have hmem := mem_delimiters_of_block hb
    exact .inBlock hb (fun hopen => inert.not_prefix valid hmem.1 hopen.2)
      (inert.not_prefix valid hmem.2)
  | inString pair escaped =>
    have hs := List.getElem?_eq_getElem range
    cases escaped with
    | true => exact .escaped hs
    | false =>
      refine .inString hs ?_ (inert.not_prefix valid (mem_delimiters_of_string hs).2)
      intro c' hc' hhead
      obtain rfl : c = c' := Option.some.inj hhead
      exact inert.not_escape (mem_escapes hs hc')

/-- The end of a line that gives up no string does to the state what an inert character does. -/
theorem Ends.eq_settle (h : p.Ends state next false) : next = state.settle := by
  cases h with
  | normal | inBlock | escaped | multiline => rfl

end Profile

end SourceTally
