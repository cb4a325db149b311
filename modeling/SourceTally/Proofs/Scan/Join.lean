import SourceTally.Proofs.Scan.Inert
import SourceTally.Proofs.Scan.Tiling

/-!
# Lines joined by a neutral character

Two lines can be joined to one by a character that is part of no delimiter and is no escape
(`Profile.Neutral`). The character then does what the break between the lines did: the joined line
is scanned as the two lines are, one after the other (`Profile.scanLine_joined`).

No rule of the scan looks past a neutral character, since no delimiter goes across it. So each step
on the first line is a step on the joined line too (`Profile.Moves.extend`), and so is a run
(`Profile.Runs.join`). Only a line comment is an exception: it takes all that is left of its line.
The neutral character itself is inert, and the end of the first line is as if it were one.
-/

namespace SourceTally

/-- The second run, taken behind the first. -/
def Run.append (first second : Run) : Run where
  painted := first.painted ++ second.painted
  state := second.state
  closedBlock := first.closedBlock || second.closedBlock

namespace Profile

variable {p : Profile} {state : ScanState} {rest : List Char} {st : Step} {r r' : Run} {x : Char}

/-- The character is part of no delimiter, and is no escape. -/
structure Neutral (p : Profile) (x : Char) : Prop where
  not_mem : ∀ token ∈ p.delimiters, x ∉ token
  not_escape : x ∉ p.escapes

/-- What is part of no delimiter begins none. -/
theorem Neutral.inert (neutral : p.Neutral x) : p.Inert x where
  begins_none token htoken hhead := neutral.not_mem token htoken (List.mem_of_mem_head? hhead)
  not_escape := neutral.not_escape

/-! ## Steps in front of a neutral character -/

/-- A delimiter that lacks the character does not reach past it. -/
theorem prefix_append_cons_iff {token more : List Char} (hx : x ∉ token) :
    token <+: rest ++ x :: more ↔ token <+: rest := by
  constructor
  · intro htoken
    rcases List.prefix_or_prefix_of_prefix htoken (List.prefix_append rest (x :: more)) with
      hshort | ⟨beyond, rfl⟩
    · exact hshort
    · have hbeyond : beyond <+: x :: more := (List.prefix_append_right_inj rest).1 htoken
      cases beyond with
      | nil => rw [List.append_nil]
      | cons y ys =>
        obtain ⟨rfl, -⟩ := List.cons_prefix_cons.1 hbeyond
        exact absurd (List.mem_append_right rest (List.mem_cons_self ..)) hx
  · intro htoken
    exact htoken.trans (List.prefix_append rest (x :: more))

/-- Which delimiter is found depends only on which of them the text begins with. -/
theorem longestPrefix_congr {rest rest' : List Char} {os : List (Opening × Token)}
    (h : ∀ o ∈ os, o.2 <+: rest' ↔ o.2 <+: rest) :
    longestPrefix rest' os = longestPrefix rest os := by
  induction os with
  | nil => rfl
  | cons o os ih =>
    obtain ⟨hfirst, hothers⟩ := List.forall_mem_cons.1 h
    have hsame : o.2.isPrefixOf rest' = o.2.isPrefixOf rest := by
      rw [Bool.eq_iff_iff, List.isPrefixOf_iff_prefix, List.isPrefixOf_iff_prefix]
      exact hfirst
    rw [longestPrefix, longestPrefix, ih hothers, hsame]

/-- The same opens in front of a neutral character and what follows it. -/
theorem Neutral.opening?_eq (neutral : p.Neutral x) (rest more : List Char) :
    p.opening? (rest ++ x :: more) = p.opening? rest := by
  refine longestPrefix_congr fun o ho => prefix_append_cons_iff ?_
  exact neutral.not_mem _ (mem_delimiters_of_declares (declares_of_mem_openings ho))

/-- Every step but that of a line comment is taken in the same way when a neutral character and
more follow. -/
theorem Moves.extend (h : p.Moves rest state st) (neutral : p.Neutral x) (hne : rest ≠ [])
    (hkind : st.kind ≠ .lineComment) (more : List Char) :
    p.Moves (rest ++ x :: more) state st := by
  have hopening := neutral.opening?_eq rest more
  have hsame : ∀ token ∈ p.delimiters, token <+: rest ++ x :: more ↔ token <+: rest := by
    intro token htoken
    exact prefix_append_cons_iff (neutral.not_mem token htoken)
  have hhead : (rest ++ x :: more).head? = rest.head? := List.head?_append_of_ne_nil _ hne
  cases h with
  | code h => exact .code (hopening.trans h)
  | lineComment => exact absurd rfl hkind
  | openBlock hb h => exact .openBlock hb (hopening.trans h)
  | openString hs h => exact .openString hs (hopening.trans h)
  | nest hb hnest hopen hdepth =>
    exact .nest hb hnest ((hsame _ (mem_delimiters_of_block hb).1).2 hopen) hdepth
  | unnest hb hopen hclose hdepth =>
    obtain ⟨hopening, hclosing⟩ := mem_delimiters_of_block hb
    rw [← hsame _ hopening] at hopen
    exact .unnest hb hopen ((hsame _ hclosing).2 hclose) hdepth
  | closeBlock hb hopen hclose hdepth =>
    obtain ⟨hopening, hclosing⟩ := mem_delimiters_of_block hb
    rw [← hsame _ hopening] at hopen
    exact .closeBlock hb hopen ((hsame _ hclosing).2 hclose) hdepth
  | inBlock hb hopen hclose =>
    obtain ⟨hopening, hclosing⟩ := mem_delimiters_of_block hb
    rw [← hsame _ hopening] at hopen
    exact .inBlock hb hopen (mt (hsame _ hclosing).1 hclose)
  | escaped hs => exact .escaped hs
  | escape hs hc hfirst => exact .escape hs hc (hhead.trans hfirst)
  | doubled hs hdouble hclose =>
    exact .doubled hs hdouble (hclose.trans (List.prefix_append _ _))
  | @closeString _ s hs hno hdouble hclose =>
    have hclosing := (mem_delimiters_of_string hs).2
    have htwice : x ∉ s.closing ++ s.closing := by
      simp only [List.mem_append, or_self]
      exact neutral.not_mem _ hclosing
    have hboth : s.closing ++ s.closing <+: rest ++ x :: more ↔ s.closing ++ s.closing <+: rest :=
      prefix_append_cons_iff htwice
    rw [← hhead] at hno
    rw [← hboth] at hdouble
    exact .closeString hs hno hdouble ((hsame _ hclosing).2 hclose)
  | inString hs hno hclose =>
    rw [← hhead] at hno
    exact .inString hs hno (mt (hsame _ (mem_delimiters_of_string hs).2).1 hclose)

/-- A run without a line comment goes on behind a neutral character. -/
theorem Runs.join (valid : p.Valid) (neutral : p.Neutral x) {more : List Char}
    (h : p.Runs state rest r) (hkinds : ∀ c ∈ r.painted, c.2 ≠ .lineComment)
    (h' : p.Runs r.state (x :: more) r') : p.Runs state (rest ++ x :: more) (r.append r') := by
  induction h with
  | nil => exact h'
  | @step state rest st next hne hmoves hnext ih =>
    obtain ⟨hfirst, hothers⟩ := List.forall_mem_append.1 hkinds
    have hkind : st.kind ≠ .lineComment := by
      obtain ⟨n, hn⟩ := hmoves.exists_size_eq valid hne
      obtain ⟨c, cs, rfl⟩ := List.exists_cons_of_ne_nil hne
      refine hfirst (c, st.kind) (List.mem_map_of_mem ?_)
      rw [hn, List.take_succ_cons]
      exact List.mem_cons_self ..
    have hsize := hmoves.size_le hne
    have hstep : p.Runs state (rest ++ x :: more) _ :=
      .step (List.append_ne_nil_of_left_ne_nil hne _) (hmoves.extend neutral hne hkind more)
        (by rw [List.drop_append_of_le_length hsize]; exact ih hothers h')
    rw [List.take_append_of_le_length hsize] at hstep
    simpa only [Run.append, List.append_assoc, Bool.or_assoc] using hstep

/-! ## Joined lines -/

/-- The kinds of the painted characters are those of the segments. -/
theorem painted_kind_ne {scanned : ScannedLine} {kind : Kind}
    (h : ∀ segment ∈ scanned.segments, segment.kind ≠ kind) :
    ∀ c ∈ scanned.painted, c.2 ≠ kind := by
  intro c hc
  rw [← (Segment.laid_ofPaintedFrom 0 scanned.painted).flatMap_painted] at hc
  obtain ⟨segment, hsegment, hc⟩ := List.mem_flatMap.1 hc
  obtain ⟨_, -, rfl⟩ := List.mem_map.1 hc
  exact h segment hsegment

/-- A line break is like a neutral character. From every state in range, when the first line has no
line comment and gives up no string, the line that is joined from the two by a neutral character
ends in the same state and gives up a string when the second line does; it closes a block comment
when one of them does, and all characters of both keep their kinds. The neutral character is of the
kind of what the first line leaves open. -/
theorem scanLine_joined (p : Profile) (state : ScanState) (x : Char) (line line' : List Char)
    (valid : p.Valid) (range : state.InRange p) (neutral : p.Neutral x)
    (room : state.depth + Text.byteLength (line ++ line') < 2 ^ 32) :
    ∃ first, p.scanLine state line = .ok first ∧
      ((∀ segment ∈ first.segments, segment.kind ≠ .lineComment) →
        first.unterminatedString = false →
        ∃ second joined, p.scanLine first.state line' = .ok second ∧
          p.scanLine state (line ++ x :: line') = .ok joined ∧
          joined.state = second.state ∧
          joined.unterminatedString = second.unterminatedString ∧
          joined.closedBlock = (first.closedBlock || second.closedBlock) ∧
          joined.painted = first.painted ++ (x, first.state.kind) :: second.painted) := by
  rw [Text.byteLength_append] at room
  obtain ⟨first, hfirst⟩ : ∃ first, p.scanLine state line = .ok first :=
    exists_scanLine valid range (by omega)
  refine ⟨first, hfirst, ?_⟩
  intro hkinds hterminated
  have hdepth := depth_le_of_scanLine valid hfirst
  obtain ⟨second, hsecond⟩ : ∃ second, p.scanLine first.state line' = .ok second :=
    exists_scanLine valid (inRange_of_scanLine valid hfirst range) (by omega)
  obtain ⟨r, hr, hend, hpainted, hclosed⟩ := (scanLine_eq_ok_iff valid).1 hfirst
  obtain ⟨r', hr', hend', hpainted', hclosed'⟩ := (scanLine_eq_ok_iff valid).1 hsecond
  rw [hterminated] at hend
  have hstate := hend.eq_settle
  -- The end of the first line and the neutral character lead to the same state.
  have hneutral : p.Runs r.state (x :: line') ⟨(x, first.state.kind) :: r'.painted, r'.state,
      r'.closedBlock⟩ := by
    rw [hstate, ScanState.kind_settle]
    rw [hstate] at hr'
    exact .step (List.cons_ne_nil _ _) (moves_of_inert valid neutral.inert (hr.inRange range) _) hr'
  have hjoined := hr.join valid neutral (hpainted ▸ painted_kind_ne hkinds) hneutral
  refine ⟨second, ⟨first.painted ++ (x, first.state.kind) :: second.painted, second.state,
    second.unterminatedString, first.closedBlock || second.closedBlock⟩, hsecond, ?_, rfl, rfl, rfl,
    rfl⟩
  rw [scanLine_eq_ok_iff valid]
  exact ⟨_, hjoined, hend', by rw [hpainted, hpainted']; rfl, by rw [hclosed, hclosed']; rfl⟩

/-- The first line closes two comments and opens a string at whose end an escape is waiting; the
second line closes the string and opens a comment. The joined line has all of it. -/
theorem scanLine_joined_escape :
    sample.Valid ∧ ScanState.InRange sample (.inBlock 1 2) ∧ sample.Neutral '\n' ∧
      ∃ first second joined, sample.scanLine (.inBlock 1 2) "*)*) \"é\\".toList = .ok first ∧
        first.state = .inString 0 false ∧
        sample.scanLine first.state "\" /*".toList = .ok second ∧
        sample.scanLine (.inBlock 1 2) "*)*) \"é\\\n\" /*".toList = .ok joined ∧
        joined.state = second.state ∧
        joined.closedBlock = (first.closedBlock || second.closedBlock) ∧
        joined.painted = first.painted ++ ('\n', .string) :: second.painted := by
  have range : ScanState.InRange sample (.inBlock 1 2) := by
    simp only [ScanState.InRange]
    decide
  have neutral : sample.Neutral '\n' := ⟨by decide, by decide⟩
  obtain ⟨first, hfirst, hjoin⟩ := scanLine_joined sample (.inBlock 1 2) '\n'
    "*)*) \"é\\".toList "\" /*".toList sample_valid range neutral (by decide)
  have hscan : (sample.scanLine (.inBlock 1 2) "*)*) \"é\\".toList).map
      (fun line => (line.segments.map (·.kind), line.state, line.unterminatedString)) =
      .ok ([.blockComment, .code, .string], .inString 0 false, false) := by cbv
  rw [hfirst] at hscan
  simp only [Except.map, Except.ok.injEq, Prod.mk.injEq] at hscan
  obtain ⟨hsegments, hstate, hterminated⟩ := hscan
  have hkinds : ∀ segment ∈ first.segments, segment.kind ≠ .lineComment := by
    intro segment hsegment
    have hmem := List.mem_map_of_mem (f := (·.kind)) hsegment
    rw [hsegments] at hmem
    intro hkind
    rw [hkind] at hmem
    exact absurd hmem (by decide)
  obtain ⟨second, joined, hsecond, hjoined, hsame, -, hclosed, hpainted⟩ := hjoin hkinds hterminated
  rw [hstate] at hpainted
  exact ⟨sample_valid, range, neutral, first, second, joined, hfirst, hstate, hsecond, hjoined,
    hsame, hclosed, hpainted⟩

end Profile

end SourceTally
