import SourceTally.Profile.Valid
import SourceTally.Proofs.Basic
import SourceTally.Scan.Step

/-!
# The rules of a scan

`Profile.step` decides by nested conditions what the next step of a scan is. Here the decisions
stand as rules, one for each thing that a step can do (`Profile.Moves`), and the two agree
(`Profile.step_eq_ok_iff`). Proofs about scans go through the rules and leave `Profile.step` closed.

A valid profile has no empty delimiter (`BlockPair.Usable`, `StringPair.Usable`), so that every
step takes at least one character (`Profile.Moves.size_pos`) and never more than there are
(`Profile.Moves.size_le`).
-/

namespace SourceTally

/-! ## What validity gives -/

/-- The rules that a block comment of a valid profile keeps. -/
structure BlockPair.Usable (b : BlockPair) : Prop where
  opening_ne_nil : b.opening ≠ []
  closing_ne_nil : b.closing ≠ []
  distinct : b.nestable = true → b.opening ≠ b.closing

/-- The rules that a string of a valid profile keeps. -/
structure StringPair.Usable (s : StringPair) : Prop where
  opening_ne_nil : s.opening ≠ []
  closing_ne_nil : s.closing ≠ []
  escape_ne_head : ∀ c, s.escape = .char c → s.closing.head? ≠ some c

/-- A block comment without a fault is usable. -/
theorem BlockPair.usable_of_fault? {b : BlockPair} (h : b.fault? = none) : b.Usable := by
  unfold BlockPair.fault? at h
  split at h
  · cases h
  next hempty =>
    split at h
    · cases h
    next hsame =>
      simp only [Bool.or_eq_true, List.isEmpty_iff, not_or] at hempty
      simp only [Bool.and_eq_true, beq_iff_eq, not_and] at hsame
      exact ⟨hempty.1, hempty.2, hsame⟩

/-- A string without a fault is usable. -/
theorem StringPair.usable_of_fault? {s : StringPair} (h : s.fault? = none) : s.Usable := by
  unfold StringPair.fault? at h
  split at h
  · cases h
  next hempty =>
    simp only [Bool.or_eq_true, List.isEmpty_iff, not_or] at hempty
    refine ⟨hempty.1, hempty.2, fun c hc => ?_⟩
    rw [hc] at h
    simpa using h

namespace Profile

variable {p : Profile} {rest : List Char} {state : ScanState} {st : Step} {pair depth : Nat}
  {b : BlockPair} {s : StringPair}

/-- Validity is the absence of each of the faults. -/
theorem Valid.parts (valid : p.Valid) :
    (∀ t ∈ p.lineComments, t ≠ []) ∧ (∀ b ∈ p.blockComments, b.fault? = none) ∧
      ∀ s ∈ p.strings, s.fault? = none := by
  unfold Valid fault? at valid
  split at valid
  · cases valid
  split at valid
  · cases valid
  split at valid
  · cases valid
  next hline =>
    rw [Option.orElse_eq_orElse, Option.orElse_eq_or, Option.or_eq_none_iff] at valid
    obtain ⟨hblock, hstring⟩ := valid
    rw [List.findSome?_eq_none_iff] at hblock hstring
    refine ⟨fun t ht hnil => hline ?_, hblock, hstring⟩
    exact List.any_eq_true.2 ⟨t, ht, by simp [hnil]⟩

/-- The block comments of a valid profile are usable. -/
theorem Valid.block (valid : p.Valid) (h : p.blockComments[pair]? = some b) : b.Usable :=
  BlockPair.usable_of_fault? (valid.parts.2.1 b (List.mem_of_getElem? h))

/-- The strings of a valid profile are usable. -/
theorem Valid.string (valid : p.Valid) (h : p.strings[pair]? = some s) : s.Usable :=
  StringPair.usable_of_fault? (valid.parts.2.2 s (List.mem_of_getElem? h))

/-! ## Openings -/

/-- What `longestPrefix` finds is one of the delimiters, and the text begins with it. -/
theorem mem_of_longestPrefix {o : Opening × Token} :
    ∀ {os : List (Opening × Token)}, longestPrefix rest os = some o → o ∈ os ∧ o.2 <+: rest
  | [], h => nomatch h
  | x :: more, h => by
    rw [longestPrefix] at h
    split at h
    next best hbest =>
      split at h
      next hx =>
        simp only [Bool.and_eq_true, List.isPrefixOf_iff_prefix] at hx
        cases h
        exact ⟨.head _, hx.1⟩
      · cases h
        obtain ⟨hmem, hprefix⟩ := mem_of_longestPrefix hbest
        exact ⟨.tail _ hmem, hprefix⟩
    · split at h
      next hx =>
        cases h
        exact ⟨.head _, List.isPrefixOf_iff_prefix.1 hx⟩
      · cases h

/-- The declaration behind an opening delimiter of a profile. -/
def Declares (p : Profile) (token : Token) : Opening → Prop
  | .string pair => ∃ s, p.strings[pair]? = some s ∧ s.opening = token
  | .block pair => ∃ b, p.blockComments[pair]? = some b ∧ b.opening = token
  | .line => token ∈ p.lineComments

/-- Every listed opening delimiter is declared. -/
theorem declares_of_mem_openings {o : Opening} {token : Token} (h : (o, token) ∈ p.openings) :
    p.Declares token o := by
  simp only [openings, List.mem_append, List.mem_map, Prod.mk.injEq, Prod.exists] at h
  rcases h with (⟨s, i, hs, rfl, rfl⟩ | ⟨b, i, hb, rfl, rfl⟩) | ⟨t, ht, rfl, rfl⟩
  · exact ⟨s, List.mk_mem_zipIdx_iff_getElem?.1 hs, rfl⟩
  · exact ⟨b, List.mk_mem_zipIdx_iff_getElem?.1 hb, rfl⟩
  · exact ht

/-- What opens at the beginning of a text is declared, and the text begins with its delimiter. -/
theorem declares_of_opening? {o : Opening} {token : Token} (h : p.opening? rest = some (o, token)) :
    p.Declares token o ∧ token <+: rest :=
  have ⟨hmem, hprefix⟩ := mem_of_longestPrefix h
  ⟨declares_of_mem_openings hmem, hprefix⟩

/-! ## Rules -/

/-- The rules of a scan: what the next step can be, by the state and the text in front of it. -/
inductive Moves (p : Profile) (rest : List Char) : ScanState → Step → Prop where
  /-- Nothing opens: a character of code. -/
  | code : p.opening? rest = none → p.Moves rest .normal ⟨1, .code, .normal, false⟩
  /-- A line comment takes all that is left. -/
  | lineComment {token : Token} : p.opening? rest = some (.line, token) →
      p.Moves rest .normal ⟨rest.length, .lineComment, .normal, false⟩
  /-- A block comment opens. -/
  | openBlock {pair : Nat} {b : BlockPair} : p.blockComments[pair]? = some b →
      p.opening? rest = some (.block pair, b.opening) →
      p.Moves rest .normal ⟨b.opening.length, .blockComment, .inBlock pair 1, false⟩
  /-- A string opens. -/
  | openString {pair : Nat} {s : StringPair} : p.strings[pair]? = some s →
      p.opening? rest = some (.string pair, s.opening) →
      p.Moves rest .normal ⟨s.opening.length, .string, .inString pair false, false⟩
  /-- A nestable comment opens once more. -/
  | nest {pair depth : Nat} {b : BlockPair} : p.blockComments[pair]? = some b →
      b.nestable = true → b.opening <+: rest → depth < maxDepth →
      p.Moves rest (.inBlock pair depth)
        ⟨b.opening.length, .blockComment, .inBlock pair (depth + 1), false⟩
  /-- A comment inside a comment closes. -/
  | unnest {pair depth : Nat} {b : BlockPair} : p.blockComments[pair]? = some b →
      ¬ (b.nestable = true ∧ b.opening <+: rest) → b.closing <+: rest → 1 < depth →
      p.Moves rest (.inBlock pair depth)
        ⟨b.closing.length, .blockComment, .inBlock pair (depth - 1), false⟩
  /-- The comment closes for good. -/
  | closeBlock {pair depth : Nat} {b : BlockPair} : p.blockComments[pair]? = some b →
      ¬ (b.nestable = true ∧ b.opening <+: rest) → b.closing <+: rest → ¬ 1 < depth →
      p.Moves rest (.inBlock pair depth) ⟨b.closing.length, .blockComment, .normal, true⟩
  /-- A character of a block comment. -/
  | inBlock {pair depth : Nat} {b : BlockPair} : p.blockComments[pair]? = some b →
      ¬ (b.nestable = true ∧ b.opening <+: rest) → ¬ b.closing <+: rest →
      p.Moves rest (.inBlock pair depth) ⟨1, .blockComment, .inBlock pair depth, false⟩
  /-- A character that an escape takes the meaning of. -/
  | escaped {pair : Nat} {s : StringPair} : p.strings[pair]? = some s →
      p.Moves rest (.inString pair true) ⟨1, .string, .inString pair false, false⟩
  /-- An escape character. -/
  | escape {pair : Nat} {s : StringPair} {c : Char} : p.strings[pair]? = some s →
      s.escape = .char c → rest.head? = some c →
      p.Moves rest (.inString pair false) ⟨1, .string, .inString pair true, false⟩
  /-- A closing delimiter written twice. -/
  | doubled {pair : Nat} {s : StringPair} : p.strings[pair]? = some s →
      s.escape = .doubled → s.closing ++ s.closing <+: rest →
      p.Moves rest (.inString pair false)
        ⟨2 * s.closing.length, .string, .inString pair false, false⟩
  /-- The string closes. -/
  | closeString {pair : Nat} {s : StringPair} : p.strings[pair]? = some s →
      (∀ c, s.escape = .char c → rest.head? ≠ some c) →
      ¬ (s.escape = .doubled ∧ s.closing ++ s.closing <+: rest) → s.closing <+: rest →
      p.Moves rest (.inString pair false) ⟨s.closing.length, .string, .normal, false⟩
  /-- A character of a string. -/
  | inString {pair : Nat} {s : StringPair} : p.strings[pair]? = some s →
      (∀ c, s.escape = .char c → rest.head? ≠ some c) → ¬ s.closing <+: rest →
      p.Moves rest (.inString pair false) ⟨1, .string, .inString pair false, false⟩

/-- Every rule is followed. -/
theorem Moves.step_eq (h : p.Moves rest state st) : p.step state rest = .ok st := by
  cases h with
  | code h | lineComment h => simp [step, normalStep, h]
  | openBlock _ h | openString _ h => simp [step, normalStep, h]
  | nest hb hnest hopen hdepth => simp [step, hb, BlockPair.step, hnest, hopen, hdepth]
  | unnest hb hopen hclose hdepth | closeBlock hb hopen hclose hdepth =>
    simp [step, hb, BlockPair.step, hopen, hclose, hdepth]
  | inBlock hb hopen hclose => simp [step, hb, BlockPair.step, hopen, hclose]
  | escaped hs => simp [step, hs, StringPair.step]
  | escape hs hc hhead => simp [step, hs, StringPair.step, hc, hhead]
  | doubled hs hd hclose => simp [step, hs, StringPair.step, hd, hclose]
  | @closeString _ s hs hno hdouble hclose =>
    cases he : s.escape with
    | none | doubled | char c => simp_all [step, StringPair.step]
  | @inString _ s hs hno hclose =>
    have hdouble : ¬ s.closing ++ s.closing <+: rest := fun h =>
      hclose ((List.prefix_append _ _).trans h)
    cases he : s.escape with
    | none | doubled | char c => simp_all [step, StringPair.step]

/-- Outside comments and strings some rule applies. -/
theorem exists_moves_normal (p : Profile) (rest : List Char) : ∃ st, p.Moves rest .normal st := by
  cases h : p.opening? rest with
  | none => exact ⟨_, .code h⟩
  | some found =>
    obtain ⟨o, token⟩ := found
    have hdecl := (declares_of_opening? h).1
    cases o with
    | string pair => obtain ⟨s, hs, rfl⟩ := hdecl; exact ⟨_, .openString hs h⟩
    | block pair => obtain ⟨b, hb, rfl⟩ := hdecl; exact ⟨_, .openBlock hb h⟩
    | line => exact ⟨_, .lineComment h⟩

/-- Inside a string some rule applies. -/
theorem exists_moves_inString (hs : p.strings[pair]? = some s) (escaped : Bool) (rest : List Char) :
    ∃ st, p.Moves rest (.inString pair escaped) st := by
  cases escaped with
  | true => exact ⟨_, .escaped hs⟩
  | false =>
    by_cases hescape : ∃ c, s.escape = .char c ∧ rest.head? = some c
    · obtain ⟨c, hc, hhead⟩ := hescape
      exact ⟨_, .escape hs hc hhead⟩
    have hno : ∀ c, s.escape = .char c → rest.head? ≠ some c := fun c hc hhead =>
      hescape ⟨c, hc, hhead⟩
    by_cases hdouble : s.escape = .doubled ∧ s.closing ++ s.closing <+: rest
    · exact ⟨_, .doubled hs hdouble.1 hdouble.2⟩
    by_cases hclose : s.closing <+: rest
    · exact ⟨_, .closeString hs hno hdouble hclose⟩
    · exact ⟨_, .inString hs hno hclose⟩

/-- Inside a block comment some rule applies, unless the comment would be nested too deeply. -/
theorem exists_moves_inBlock (hb : p.blockComments[pair]? = some b) (rest : List Char)
    (hdepth : b.nestable = true → b.opening <+: rest → depth < maxDepth) :
    ∃ st, p.Moves rest (.inBlock pair depth) st := by
  by_cases hopen : b.nestable = true ∧ b.opening <+: rest
  · exact ⟨_, .nest hb hopen.1 hopen.2 (hdepth hopen.1 hopen.2)⟩
  by_cases hclose : b.closing <+: rest
  · by_cases hone : 1 < depth
    · exact ⟨_, .unnest hb hopen hclose hone⟩
    · exact ⟨_, .closeBlock hb hopen hclose hone⟩
  · exact ⟨_, .inBlock hb hopen hclose⟩

/-- Every step goes by a rule. Since the rules are followed, it is enough that one applies. -/
theorem moves_of_step (h : p.step state rest = .ok st) : p.Moves rest state st := by
  have some_rule : ∃ st', p.Moves rest state st' := by
    cases state with
    | normal => exact exists_moves_normal p rest
    | inString pair escaped =>
      cases hs : p.strings[pair]? with
      | none => simp [step, hs] at h
      | some s => exact exists_moves_inString hs escaped rest
    | inBlock pair depth =>
      cases hb : p.blockComments[pair]? with
      | none => simp [step, hb] at h
      | some b =>
        refine exists_moves_inBlock hb rest fun hnest hopen => Decidable.by_contra fun hdeep => ?_
        simp [step, hb, BlockPair.step, hnest, hopen, hdeep] at h
  obtain ⟨st', hrule⟩ := some_rule
  cases hrule.step_eq.symm.trans h
  exact hrule

/-- A step succeeds exactly by the rules. -/
theorem step_eq_ok_iff : p.step state rest = .ok st ↔ p.Moves rest state st :=
  ⟨moves_of_step, Moves.step_eq⟩

/-! ## The size of a step -/

/-- A step of a valid profile takes a character. -/
theorem Moves.size_pos (valid : p.Valid) (hne : rest ≠ []) (h : p.Moves rest state st) :
    0 < st.size := by
  cases h with
  | code | inBlock | escaped | escape | inString => exact Nat.one_pos
  | lineComment => exact List.length_pos_iff.2 hne
  | openBlock hb | nest hb => exact List.length_pos_iff.2 (valid.block hb).opening_ne_nil
  | unnest hb | closeBlock hb => exact List.length_pos_iff.2 (valid.block hb).closing_ne_nil
  | openString hs => exact List.length_pos_iff.2 (valid.string hs).opening_ne_nil
  | closeString hs => exact List.length_pos_iff.2 (valid.string hs).closing_ne_nil
  | doubled hs =>
    exact Nat.mul_pos Nat.two_pos (List.length_pos_iff.2 (valid.string hs).closing_ne_nil)

/-- The size of a step of a valid profile, as a successor. -/
theorem Moves.exists_size_eq (valid : p.Valid) (hne : rest ≠ []) (h : p.Moves rest state st) :
    ∃ n, st.size = n + 1 :=
  Nat.exists_eq_succ_of_ne_zero (Nat.ne_of_gt (h.size_pos valid hne))

/-- A step takes no more characters than there are. -/
theorem Moves.size_le (hne : rest ≠ []) (h : p.Moves rest state st) : st.size ≤ rest.length := by
  cases h with
  | code | inBlock | escaped | escape | inString => exact List.length_pos_iff.2 hne
  | lineComment => exact Nat.le_refl _
  | openBlock _ h | openString _ h => exact (declares_of_opening? h).2.length_le
  | nest _ _ h | unnest _ _ h | closeBlock _ _ h => exact h.length_le
  | closeString _ _ _ h => exact h.length_le
  | doubled _ _ h =>
    have hlen := h.length_le
    rw [List.length_append] at hlen
    exact Nat.two_mul _ ▸ hlen

end Profile

end SourceTally
