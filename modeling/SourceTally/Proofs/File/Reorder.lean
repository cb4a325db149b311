import SourceTally.Proofs.File.Header
import SourceTally.Proofs.Profile.Opening

/-!
# Declarations in another order

The order in which a profile declares its strings, block comments and line comments does not matter,
as long as no two strings and no two block comments open with the same delimiter
(`Profile.DistinctOpenings`). A profile with the declarations in another order (`Profile.Reordered`)
scans every line in the same way and gives the same report on every file
(`Profile.classifyFile_reordered`).

A state names its pair by an index, so the states of the two profiles correspond under the
permutation of the indices (`Profile.Reordered.reindex`), and so do the openings. That the same
delimiter wins at every place (`Profile.Reordered.opening?_eq`) is the one step where distinct
delimiters are needed: of two equal ones the first in the order would win. From there on each
operation commutes with the change of indices, from a single step up to the lines of a file.
-/

namespace SourceTally

/-! ## Indices -/

/-- The index in the second list of the entry that has index `i` in the first. -/
def permIndex {α : Type} [DecidableEq α] {l l' : List α} (h : l.Perm l') (i : Nat) : Nat :=
  if hi : i < l.length then h.idxBij ⟨i, hi⟩ else i

section

variable {α : Type} [DecidableEq α] {l l' : List α} {i j : Nat} {x : α}

/-- The entry stands at the new index. -/
theorem getElem?_permIndex (h : l.Perm l') (hi : l[i]? = some x) :
    l'[permIndex h i]? = some x := by
  obtain ⟨hlt, rfl⟩ := List.getElem?_eq_some_iff.1 hi
  rw [permIndex, dif_pos hlt, ← h.getElem_idxBij_eq_getElem ⟨i, hlt⟩]
  exact List.getElem?_eq_getElem _

/-- Every index of the second list is the new index of an entry. -/
theorem exists_permIndex_eq (h : l.Perm l') (hj : l'[j]? = some x) :
    ∃ i, l[i]? = some x ∧ permIndex h i = j := by
  obtain ⟨hlt, rfl⟩ := List.getElem?_eq_some_iff.1 hj
  refine ⟨h.symm.idxBij ⟨j, hlt⟩, ?_, ?_⟩
  · rw [← h.getElem_idxBij_symm_eq_getElem ⟨j, hlt⟩]
    exact List.getElem?_eq_getElem _
  · rw [permIndex, dif_pos (Fin.is_lt _)]
    exact congrArg Fin.val (h.idxBij_leftInverse_idxBij_symm ⟨j, hlt⟩)

end

/-! ## States under another name -/

/-- The step with another state after it. -/
def Step.mapState (f : ScanState → ScanState) (st : Step) : Step :=
  { st with state := f st.state }

/-- The run with another state at its end. -/
def Run.mapState (f : ScanState → ScanState) (r : Run) : Run :=
  { r with state := f r.state }

/-- The scanned line with another state for the next line. -/
def ScannedLine.mapState (f : ScanState → ScanState) (line : ScannedLine) : ScannedLine :=
  { line with state := f line.state }

/-- The progress with another scan state. -/
def Progress.mapState (f : ScanState → ScanState) (progress : Progress) : Progress :=
  { progress with state := f progress.state }

namespace Profile

variable {p q : Profile} {state : ScanState} {rest : List Char} {o o' : Opening} {token : Token}

/-- No two strings open with the same delimiter, and no two block comments do. -/
structure DistinctOpenings (p : Profile) : Prop where
  strings : (p.strings.map (·.opening)).Nodup
  blockComments : (p.blockComments.map (·.opening)).Nodup

/-- The second profile declares what the first does, in another order. -/
structure Reordered (p q : Profile) : Prop where
  strings : p.strings.Perm q.strings
  blockComments : p.blockComments.Perm q.blockComments
  lineComments : p.lineComments.Perm q.lineComments

/-- Two entries with the same image have the same index, when the images are distinct. -/
theorem index_eq_of_nodup {α β : Type} {f : α → β} {l : List α} (h : (l.map f).Nodup) {i j : Nat}
    {x y : α} (hx : l[i]? = some x) (hy : l[j]? = some y) (hxy : f x = f y) : i = j := by
  have hi : (l.map f)[i]? = some (f x) := by rw [List.getElem?_map, hx]; rfl
  have hj : (l.map f)[j]? = some (f x) := by rw [List.getElem?_map, hy, hxy]; rfl
  exact (List.getElem?_inj (List.getElem?_eq_some_iff.1 hi).1 h).1 (hi.trans hj.symm)

/-- Two strings that open with the same delimiter are one. -/
theorem DistinctOpenings.string_eq {i j : Nat} (distinct : p.DistinctOpenings)
    (h : p.Declares token (.string i)) (h' : p.Declares token (.string j)) : i = j := by
  obtain ⟨s, hs, hopen⟩ := h
  obtain ⟨s', hs', hopen'⟩ := h'
  exact index_eq_of_nodup distinct.strings hs hs' (hopen.trans hopen'.symm)

/-- Two block comments that open with the same delimiter are one. -/
theorem DistinctOpenings.block_eq {i j : Nat} (distinct : p.DistinctOpenings)
    (h : p.Declares token (.block i)) (h' : p.Declares token (.block j)) : i = j := by
  obtain ⟨b, hb, hopen⟩ := h
  obtain ⟨b', hb', hopen'⟩ := h'
  exact index_eq_of_nodup distinct.blockComments hb hb' (hopen.trans hopen'.symm)

namespace Reordered

/-- The state that names the same pair in the reordered profile. -/
def reindex (r : p.Reordered q) : ScanState → ScanState
  | .normal => .normal
  | .inBlock pair depth => .inBlock (permIndex r.blockComments pair) depth
  | .inString pair escaped => .inString (permIndex r.strings pair) escaped

/-- The opening of the same pair in the reordered profile. -/
def opening (r : p.Reordered q) : Opening → Opening
  | .string pair => .string (permIndex r.strings pair)
  | .block pair => .block (permIndex r.blockComments pair)
  | .line => .line

@[simp]
theorem isInBlock_reindex (r : p.Reordered q) (state : ScanState) :
    (r.reindex state).isInBlock = state.isInBlock := by
  cases state <;> rfl

@[simp]
theorem isInString_reindex (r : p.Reordered q) (state : ScanState) :
    (r.reindex state).isInString = state.isInString := by
  cases state <;> rfl

/-! ## Openings -/

/-- What is declared is declared in the reordered profile. -/
theorem declares (r : p.Reordered q) (h : p.Declares token o) : q.Declares token (r.opening o) := by
  cases o with
  | string i =>
    obtain ⟨s, hs, hopen⟩ := h
    exact ⟨s, getElem?_permIndex r.strings hs, hopen⟩
  | block i =>
    obtain ⟨b, hb, hopen⟩ := h
    exact ⟨b, getElem?_permIndex r.blockComments hb, hopen⟩
  | line => exact r.lineComments.mem_iff.1 h

/-- What the reordered profile declares was declared before. -/
theorem exists_declares (r : p.Reordered q) (h : q.Declares token o') :
    ∃ o, p.Declares token o ∧ r.opening o = o' := by
  cases o' with
  | string j =>
    obtain ⟨s, hs, hopen⟩ := h
    obtain ⟨i, hi, rfl⟩ := exists_permIndex_eq r.strings hs
    exact ⟨.string i, ⟨s, hi, hopen⟩, rfl⟩
  | block j =>
    obtain ⟨b, hb, hopen⟩ := h
    obtain ⟨i, hi, rfl⟩ := exists_permIndex_eq r.blockComments hb
    exact ⟨.block i, ⟨b, hi, hopen⟩, rfl⟩
  | line => exact ⟨.line, r.lineComments.mem_iff.2 h, rfl⟩

/-- Precedence between openings with the same delimiter does not depend on the order: it is a matter
of what they open. -/
theorem precedes (r : p.Reordered q) (distinct : p.DistinctOpenings) (h : p.Declares token o)
    (h' : p.Declares token o') (hprecedes : o.Precedes o') :
    (r.opening o).Precedes (r.opening o') := by
  cases o with
  | string i =>
    cases o' with
    | string j =>
      obtain rfl := distinct.string_eq h h'
      exact .refl _
    | block | line => trivial
  | block i =>
    cases o' with
    | string => exact False.elim hprecedes
    | block j =>
      obtain rfl := distinct.block_eq h h'
      exact .refl _
    | line => trivial
  | line =>
    cases o' with
    | string | block => exact False.elim hprecedes
    | line => trivial

/-- The delimiter that wins also wins in the reordered profile. -/
theorem wins (r : p.Reordered q) (distinct : p.DistinctOpenings) (h : p.Wins rest o token) :
    q.Wins rest (r.opening o) token where
  declares := r.declares h.declares
  stands := h.stands
  best o' token' hdeclares hstands := by
    obtain ⟨o, hbefore, rfl⟩ := r.exists_declares hdeclares
    rcases h.best o token' hbefore hstands with hlt | ⟨rfl, hprecedes⟩
    · exact .inl hlt
    · exact .inr ⟨rfl, r.precedes distinct h.declares hbefore hprecedes⟩

/-- The same opens at every place. -/
theorem opening?_eq (r : p.Reordered q) (distinct : p.DistinctOpenings) (rest : List Char) :
    q.opening? rest = (p.opening? rest).map fun found => (r.opening found.1, found.2) := by
  cases h : p.opening? rest with
  | none =>
    refine opening?_eq_none_iff.2 fun o' token hdeclares => ?_
    obtain ⟨o, hdeclares, -⟩ := r.exists_declares hdeclares
    exact opening?_eq_none_iff.1 h o token hdeclares
  | some found => exact opening?_eq_some_iff.2 (r.wins distinct (opening?_eq_some_iff.1 h))

/-! ## Scans -/

/-- Outside comments and strings the same step is taken. -/
theorem normalStep_eq (r : p.Reordered q) (distinct : p.DistinctOpenings) (rest : List Char) :
    q.normalStep rest = (p.normalStep rest).mapState r.reindex := by
  unfold normalStep
  rw [r.opening?_eq distinct]
  cases p.opening? rest with
  | none => rfl
  | some found =>
    obtain ⟨o, token⟩ := found
    cases o with
    | string | block | line => rfl

/-- A step inside a block comment does not depend on the index of the comment. -/
theorem blockStep_eq (r : p.Reordered q) (b : BlockPair) (pair depth : Nat) (rest : List Char) :
    b.step (permIndex r.blockComments pair) depth rest =
      (b.step pair depth rest).map (·.mapState r.reindex) := by
  simp only [BlockPair.step, apply_ite (Except.map (Step.mapState r.reindex))]
  rfl

/-- A step inside a string does not depend on the index of the string. -/
theorem stringStep_eq (r : p.Reordered q) (s : StringPair) (pair : Nat) (escaped : Bool)
    (rest : List Char) : s.step (permIndex r.strings pair) escaped rest =
      (s.step pair escaped rest).mapState r.reindex := by
  simp only [StringPair.step, apply_ite (Step.mapState r.reindex)]
  rfl

/-- From corresponding states the same step is taken, to corresponding states. -/
theorem step_eq (r : p.Reordered q) (distinct : p.DistinctOpenings) (range : state.InRange p)
    (rest : List Char) :
    q.step (r.reindex state) rest = (p.step state rest).map (·.mapState r.reindex) := by
  cases state with
  | normal => exact congrArg Except.ok (r.normalStep_eq distinct rest)
  | inBlock pair depth =>
    have hb := List.getElem?_eq_getElem range
    simp only [step, reindex, hb, getElem?_permIndex r.blockComments hb]
    exact r.blockStep_eq _ pair depth rest
  | inString pair escaped =>
    have hs := List.getElem?_eq_getElem range
    simp only [step, reindex, hs, getElem?_permIndex r.strings hs]
    exact congrArg Except.ok (r.stringStep_eq _ pair escaped rest)

/-- The same run is made from corresponding states. -/
theorem run_eq (r : p.Reordered q) (distinct : p.DistinctOpenings) (range : state.InRange p)
    (rest : List Char) :
    q.run (r.reindex state) rest = (p.run state rest).map (·.mapState r.reindex) := by
  -- Along the run of the first profile; a step that is taken stays in range.
  fun_induction p.run state rest with
  | case1 => rw [run]; rfl
  | case2 state c cs fault hst =>
    rw [run, r.step_eq distinct range, hst]
    rfl
  | case3 state c cs st hst fault hmore ih =>
    rw [run, r.step_eq distinct range, hst]
    simp only [Except.map, Step.mapState, ih (moves_of_step hst).inRange, hmore]
  | case4 state c cs st hst more hmore ih =>
    rw [run, r.step_eq distinct range, hst]
    simp only [Except.map, Step.mapState, ih (moves_of_step hst).inRange, hmore]
    rfl

/-- The end of a line does the same to corresponding states. -/
theorem endLine_eq (r : p.Reordered q) (range : state.InRange p) :
    q.endLine (r.reindex state) =
      (p.endLine state).map fun found => (r.reindex found.1, found.2) := by
  cases state with
  | normal | inBlock => rfl
  | inString pair escaped =>
    have hs := List.getElem?_eq_getElem range
    cases escaped with
    | true => rfl
    | false =>
      simp only [endLine, reindex, hs, getElem?_permIndex r.strings hs]
      cases (p.strings[pair]).multiline <;> rfl

/-- From corresponding states a line is scanned in the same way. -/
theorem scanLine_eq (r : p.Reordered q) (valid : p.Valid) (distinct : p.DistinctOpenings)
    (range : state.InRange p) (line : List Char) :
    q.scanLine (r.reindex state) line = (p.scanLine state line).map (·.mapState r.reindex) := by
  unfold scanLine
  rw [r.run_eq distinct range]
  cases hrun : p.run state line with
  | error fault => rfl
  | ok run =>
    have hend := r.endLine_eq ((runs_of_run valid hrun).inRange range)
    simp only [Except.map, bind, Except.bind, Run.mapState, hend]
    cases p.endLine run.state <;> rfl

/-! ## Files -/

variable {policy : HeaderPolicy} {progress : Progress}

/-- The header policy does not see the indices. -/
theorem advance_eq (r : p.Reordered q) (phase : HeaderPhase) (number : Nat) (line : List Char)
    (scanned : ScannedLine) :
    policy.advance phase number line (scanned.mapState r.reindex) =
      policy.advance phase number line scanned :=
  HeaderPolicy.advance_congr rfl (r.isInBlock_reindex _) rfl (fun _ => rfl) fun _ => rfl

/-- The result for a line does not depend on the indices. -/
theorem resultOf_eq (r : p.Reordered q) (line : List Char) (scanned : ScannedLine) :
    (progress.mapState r.reindex).resultOf policy line (scanned.mapState r.reindex) =
      progress.resultOf policy line scanned := by
  simp only [Progress.resultOf, r.advance_eq]
  rfl

/-- The progress of the two profiles still corresponds after a line. -/
theorem after_eq (r : p.Reordered q) (line : List Char) (scanned : ScannedLine) (counts : Counts) :
    (progress.mapState r.reindex).after policy line (scanned.mapState r.reindex) counts =
      (progress.after policy line scanned counts).mapState r.reindex := by
  simp only [Progress.after, r.advance_eq]
  simp only [Progress.mapState, ScannedLine.mapState, isInBlock_reindex, isInString_reindex]
  rfl

/-- A line is pushed in the same way. -/
theorem push_eq (r : p.Reordered q) (valid : p.Valid) (distinct : p.DistinctOpenings)
    (range : progress.state.InRange p) (line : List Char) :
    Progress.push q policy (progress.mapState r.reindex) line =
      (Progress.push p policy progress line).map
        fun found => (found.1, found.2.mapState r.reindex) := by
  have hsame := r.scanLine_eq valid distinct range line
  cases hscan : p.scanLine progress.state line with
  | error fault =>
    rw [hscan] at hsame
    simp only [Progress.push, Progress.mapState, hsame, hscan]
    rfl
  | ok scanned =>
    have hcounts : (progress.mapState r.reindex).counts = progress.counts := rfl
    rw [hscan] at hsame
    rw [Progress.push_of_scanLine hscan, Progress.push_of_scanLine hsame, r.resultOf_eq, hcounts]
    simp only [r.after_eq]
    cases progress.counts.record? (progress.resultOf policy line scanned).category <;> rfl

/-- Lines are pushed in the same way. -/
theorem pushAll_eq (r : p.Reordered q) (valid : p.Valid) (distinct : p.DistinctOpenings)
    (progress : Progress) (range : progress.state.InRange p) (lines : List (List Char)) :
    Progress.pushAll q policy (progress.mapState r.reindex) lines =
      (Progress.pushAll p policy progress lines).map
        fun found => (found.1, found.2.mapState r.reindex) := by
  induction lines generalizing progress with
  | nil => rfl
  | cons line lines ih =>
    rw [Progress.pushAll, Progress.pushAll, r.push_eq valid distinct range]
    cases hpush : Progress.push p policy progress line with
    | error fault => rfl
    | ok found =>
      obtain ⟨result, next⟩ := found
      obtain ⟨scanned, counts, hscan, -, -, rfl⟩ := Progress.push_eq_ok_iff.1 hpush
      have hmore := ih (progress.after policy line scanned counts)
        (inRange_of_scanLine valid hscan range)
      simp only [Except.map, bind, Except.bind, hmore]
      cases Progress.pushAll p policy (progress.after policy line scanned counts) lines <;> rfl

/-- The report at the end does not depend on the indices. -/
theorem finish_eq (r : p.Reordered q) (progress : Progress) :
    (progress.mapState r.reindex).finish = progress.finish := by
  unfold Progress.finish Progress.openWarning Progress.mapState
  cases progress.state <;> rfl

end Reordered

/-- The order of the declarations does not matter, for every profile in which no two strings and no
two block comments open with the same delimiter. With the declarations in any other order, every
line is scanned in the same way from the states that correspond under the permutation of the
indices, to states that correspond; and the report on every file is the same under every policy. -/
theorem classifyFile_reordered (p q : Profile) (valid : p.Valid) (distinct : p.DistinctOpenings)
    (r : p.Reordered q) :
    (∀ state line, state.InRange p →
      q.scanLine (r.reindex state) line = (p.scanLine state line).map (·.mapState r.reindex)) ∧
    ∀ policy text, q.classifyFile policy text = p.classifyFile policy text := by
  refine ⟨fun state line range => r.scanLine_eq valid distinct range line, fun policy text => ?_⟩
  have hpush : Progress.pushAll q policy (.start policy) (Text.lines text) =
      (Progress.pushAll p policy (.start policy) (Text.lines text)).map
        fun found => (found.1, found.2.mapState r.reindex) :=
    r.pushAll_eq valid distinct (.start policy) trivial _
  unfold classifyFile classifyLines
  rw [hpush]
  cases Progress.pushAll p policy (.start policy) (Text.lines text) with
  | error fault => rfl
  | ok found => exact congrArg Except.ok (r.finish_eq found.2)

/-- The profile with its declarations in the opposite order. -/
def backward (p : Profile) : Profile :=
  { p with
    lineComments := p.lineComments.reverse
    blockComments := p.blockComments.reverse
    strings := p.strings.reverse }

theorem reordered_backward (p : Profile) : p.Reordered p.backward :=
  ⟨(List.reverse_perm _).symm, (List.reverse_perm _).symm, (List.reverse_perm _).symm⟩

/-- A profile in which one string's delimiter begins with that of another, and a block comment's
with that of a line comment. -/
def overlapping : Profile where
  id := "overlapping"
  name := "Overlapping"
  lineComments := [['/', '/'], ['-', '-']]
  blockComments := [⟨['/', '*'], ['*', '/'], false⟩, ⟨['-', '-', '['], [']'], true⟩]
  strings := [⟨['"'], ['"'], .char '\\', false⟩, ⟨['"', '"', '"'], ['"', '"', '"'], .none, true⟩]

/-- The long string is the second of one profile and the first of the other. -/
theorem classifyFile_reordered_backward :
    overlapping.Valid ∧ overlapping.DistinctOpenings ∧
    overlapping.reordered_backward.reindex (.inString 1 false) = .inString 0 false ∧
    overlapping.backward.scanLine (.inString 0 false) "\" \"\"\" --[ a".toList =
      .ok ⟨("\" \"\"\"".toList.map (·, .string)) ++ [(' ', .code)] ++
        ("--[ a".toList.map (·, .blockComment)), .inBlock 0 1, false, false⟩ ∧
    ∀ policy text,
      overlapping.backward.classifyFile policy text = overlapping.classifyFile policy text := by
  have valid : overlapping.Valid := by decide
  have distinct : overlapping.DistinctOpenings := ⟨by decide, by decide⟩
  obtain ⟨hscan, hfile⟩ := classifyFile_reordered overlapping overlapping.backward valid distinct
    overlapping.reordered_backward
  have hindex : overlapping.reordered_backward.reindex (.inString 1 false) = .inString 0 false := by
    cbv
  have range : (ScanState.inString 1 false).InRange overlapping := Nat.lt_succ_self 1
  refine ⟨valid, distinct, hindex, ?_, hfile⟩
  rw [← hindex, hscan _ _ range]
  cbv

end Profile

end SourceTally
