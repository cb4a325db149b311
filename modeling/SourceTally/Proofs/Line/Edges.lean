import SourceTally.Proofs.Line
import SourceTally.Proofs.Scan.Tiling

/-!
# The first and the last segment of a line

The segments at the two ends of a line show the states at its two ends (`ScanState.Shows`). What is
open in front of a line goes on in its first segment. What is open behind it, or was given up there,
was going on in its last segment: a step leaves the scan outside of everything or inside of what it
took a part of (`Profile.Moves.shows`), and in a run the last step decides (`Profile.Runs.shows`).
A line comment takes all of its line that is left, so there is one at most and it is the last segment
(`Profile.eq_nil_of_lineComment`).

Headers and warnings rely on this. `Profile.scanLine_edges` puts it together, and says that a line
that is a comment never leaves a string open.
-/

namespace SourceTally

/-! ## Kinds at the ends -/

namespace Segment

variable {start : Nat} {painted : Painted} {segments : List Segment}

/-- The first segment has the kind of the first character. -/
theorem Laid.head?_kind (h : Laid start painted segments) :
    segments.head?.map Segment.kind = painted.head?.map Prod.snd := by
  cases h with
  | nil => rfl
  | @cons _ s painted segments _ htext =>
    obtain ⟨c, cs, hcs⟩ := List.exists_cons_of_ne_nil htext
    simp [Segment.painted, hcs]

/-- The last character of a segment has its kind. -/
theorem exists_getLast?_painted {s : Segment} (h : s.text ≠ []) :
    ∃ c, s.painted.getLast? = some (c, s.kind) := by
  refine ⟨s.text.getLast h, ?_⟩
  rw [Segment.painted, List.getLast?_map, List.getLast?_eq_some_getLast h]
  rfl

/-- The last segment has the kind of the last character. -/
theorem Laid.getLast?_kind (h : Laid start painted segments) :
    segments.getLast?.map Segment.kind = painted.getLast?.map Prod.snd := by
  induction h with
  | nil => rfl
  | @cons _ s painted segments _ htext _ hlaid ih =>
    cases segments with
    | nil =>
      obtain rfl := hlaid.eq_nil_iff.1 rfl
      obtain ⟨c, hc⟩ := exists_getLast?_painted htext
      rw [List.append_nil, hc]
      rfl
    | cons t more =>
      have hne : painted ≠ [] := fun hnil => List.cons_ne_nil t more (hlaid.eq_nil_iff.2 hnil)
      rw [List.getLast?_cons_cons, ih, List.getLast?_append_of_ne_nil _ hne]

/-- Each segment has characters of its kind. -/
theorem Laid.exists_mem_painted (h : Laid start painted segments) :
    ∀ s ∈ segments, ∃ c, (c, s.kind) ∈ painted := by
  induction h with
  | nil => exact fun s hs => absurd hs List.not_mem_nil
  | cons _ htext _ _ ih =>
    refine List.forall_mem_cons.2 ⟨?_, fun s hs => ?_⟩
    · obtain ⟨c, hc⟩ := exists_getLast?_painted htext
      exact ⟨c, List.mem_append_left _ (List.mem_of_getLast? hc)⟩
    · obtain ⟨c, hc⟩ := ih s hs
      exact ⟨c, List.mem_append_right _ hc⟩

/-- What holds between the kinds of neighbouring characters holds between those of neighbouring
segments. -/
theorem Laid.isChain_kind {R : Kind → Kind → Prop} (h : Laid start painted segments)
    (hR : painted.IsChain fun x y => R x.2 y.2) : segments.IsChain fun s t => R s.kind t.kind := by
  induction h with
  | nil => exact .nil
  | @cons _ s painted segments _ htext _ hlaid ih =>
    obtain ⟨-, hrest, hmeet⟩ := List.isChain_append.1 hR
    cases segments with
    | nil => exact .singleton _
    | cons t more =>
      refine .cons_cons ?_ (ih hrest)
      obtain ⟨c, hc⟩ := exists_getLast?_painted htext
      obtain ⟨x, hx, hkind⟩ := Option.map_eq_some_iff.1 hlaid.head?_kind.symm
      exact hkind ▸ hmeet (c, s.kind) hc x hx

end Segment

/-! ## States that show -/

namespace ScanState

variable {state : ScanState} {kind : Kind}

/-- What is open in the state, if anything, is of the kind. -/
def Shows (state : ScanState) (kind : Kind) : Prop :=
  state = .normal ∨ kind = state.kind

theorem Shows.of_isInBlock (h : state.Shows kind) (hin : state.isInBlock = true) :
    kind = .blockComment := by
  cases state with
  | normal | inString => cases hin
  | inBlock pair depth => exact h.resolve_left (by simp)

theorem Shows.of_isInString (h : state.Shows kind) (hin : state.isInString = true) :
    kind = .string := by
  cases state with
  | normal | inBlock => cases hin
  | inString pair escaped => exact h.resolve_left (by simp)

/-- Behind code and behind a line comment nothing is open. -/
theorem Shows.eq_normal (h : state.Shows kind) (hkind : kind = .code ∨ kind = .lineComment) :
    state = .normal := by
  cases state with
  | normal => rfl
  | inBlock pair depth =>
    obtain rfl : kind = .blockComment := h.of_isInBlock rfl
    simp at hkind
  | inString pair escaped =>
    obtain rfl : kind = .string := h.of_isInString rfl
    simp at hkind

end ScanState

namespace Profile

variable {p : Profile} {state next : ScanState} {rest line : List Char} {st : Step} {r : Run}
  {unterminated : Bool} {scanned : ScannedLine} {kind : Kind}

/-- What a step leaves open is what it took a part of. -/
theorem Moves.shows (h : p.Moves rest state st) : st.state.Shows st.kind := by
  cases h with
  | code | lineComment | closeBlock | closeString => exact .inl rfl
  | openBlock | nest | unnest | inBlock => exact .inr rfl
  | openString | escaped | escape | doubled | inString => exact .inr rfl

/-- A line comment leaves nothing of the line. -/
theorem Moves.drop_of_lineComment (h : p.Moves rest state st) (hkind : st.kind = .lineComment) :
    rest.drop st.size = [] := by
  cases h with
  | lineComment => exact List.drop_length
  | code | openBlock | openString | nest | unnest | closeBlock | inBlock => cases hkind
  | escaped | escape | doubled | closeString | inString => cases hkind

/-- A run over nothing gives no character a kind. -/
theorem Runs.painted_of_nil (h : p.Runs state [] r) : r.painted = [] :=
  List.map_eq_nil_iff.1 h.text

/-- What a run leaves open is what its last character is a part of. -/
theorem Runs.shows (h : p.Runs state rest r) (hne : rest ≠ []) :
    ∃ c kind, r.painted.getLast? = some (c, kind) ∧ r.state.Shows kind := by
  induction h with
  | nil => exact absurd rfl hne
  | @step state rest st more _ hmoves hmore ih =>
    by_cases hend : rest.drop st.size = []
    · -- The last step takes all that is left, and the state behind it is the one at the end.
      have htake : rest.take st.size = rest := by
        rw [← List.append_nil (rest.take st.size), ← hend, List.take_append_drop]
      rw [hend] at hmore
      refine ⟨rest.getLast hne, st.kind, ?_, hmore.state_of_nil ▸ hmoves.shows⟩
      rw [hmore.painted_of_nil, htake, List.append_nil, List.getLast?_map,
        List.getLast?_eq_some_getLast hne]
      rfl
    · obtain ⟨c, kind, hlast, hshows⟩ := ih hend
      refine ⟨c, kind, ?_, hshows⟩
      rw [List.getLast?_append, hlast, Option.some_or]

/-- Behind a character of a line comment there are only such characters. -/
theorem Runs.pairwise_kind (h : p.Runs state rest r) :
    r.painted.Pairwise fun x y => x.2 = .lineComment → y.2 = .lineComment := by
  induction h with
  | nil => exact .nil
  | @step state rest st more _ hmoves hmore ih =>
    refine List.pairwise_append.2 ⟨?_, ih, ?_⟩
    · exact List.pairwise_map.2 (List.pairwise_of_forall fun _ _ hkind => hkind)
    · intro x hx y hy hkind
      obtain ⟨c, -, rfl⟩ := List.mem_map.1 hx
      rw [hmoves.drop_of_lineComment hkind] at hmore
      rw [hmore.painted_of_nil] at hy
      exact absurd hy List.not_mem_nil

/-- What is open behind the end of a line was open in front of it. -/
theorem Ends.shows (h : p.Ends state next unterminated) (hshows : state.Shows kind) :
    next.Shows kind := by
  cases h with
  | normal | givenUp => exact .inl rfl
  | inBlock | multiline => exact hshows
  | escaped => exact .inr (hshows.of_isInString rfl)

/-- The end of a line gives up only strings. -/
theorem Ends.isInString_of_givenUp (h : p.Ends state next true) : state.isInString = true := by
  cases h with
  | givenUp => rfl

/-! ## Segments and states -/

/-- The first segment of a line shows what is open in front of the line. -/
theorem exists_first_segment (valid : p.Valid) (h : p.scanLine state line = .ok scanned)
    (hne : line ≠ []) :
    ∃ first, scanned.segments.head? = some first ∧ state.Shows first.kind := by
  have hkind : scanned.segments.head?.map Segment.kind = scanned.painted.head?.map Prod.snd :=
    (Segment.laid_ofPaintedFrom 0 scanned.painted).head?_kind
  cases hpainted : scanned.painted with
  | nil => exact absurd (by rw [← text_of_scanLine valid h, hpainted]; rfl) hne
  | cons x more =>
    rw [hpainted, List.head?_cons, Option.map_some, Option.map_eq_some_iff] at hkind
    obtain ⟨first, hfirst, hkind⟩ := hkind
    refine ⟨first, hfirst, or_iff_not_imp_left.2 fun hopen => ?_⟩
    obtain ⟨c, cs, rfl⟩ := List.exists_cons_of_ne_nil hne
    obtain ⟨more', hmore⟩ := exists_painted_eq_cons valid h hopen
    cases hpainted.symm.trans hmore
    exact hkind

/-- The last segment of a line shows what is open behind the line. Where a string was given up, it is
part of the string, and nothing is open. -/
theorem exists_last_segment (valid : p.Valid) (h : p.scanLine state line = .ok scanned)
    (hne : line ≠ []) :
    ∃ last, scanned.segments.getLast? = some last ∧ scanned.state.Shows last.kind ∧
      (scanned.unterminatedString = true → last.kind = .string ∧ scanned.state = .normal) := by
  obtain ⟨r, hr, hend, hpainted, -⟩ := (scanLine_eq_ok_iff valid).1 h
  obtain ⟨c, kind, hc, hshows⟩ := hr.shows hne
  have hkind : scanned.segments.getLast?.map Segment.kind = scanned.painted.getLast?.map Prod.snd :=
    (Segment.laid_ofPaintedFrom 0 scanned.painted).getLast?_kind
  rw [hpainted, hc, Option.map_some, Option.map_eq_some_iff] at hkind
  obtain ⟨last, hlast, rfl⟩ := hkind
  refine ⟨last, hlast, hend.shows hshows, fun hgiven => ?_⟩
  rw [hgiven] at hend
  exact ⟨hshows.of_isInString hend.isInString_of_givenUp, hend.eq_normal⟩

/-- A line comment is the last segment of its line: only such characters come behind it, and the next
segment would be of another kind. -/
theorem eq_nil_of_lineComment (valid : p.Valid) (h : p.scanLine state line = .ok scanned)
    {before after : List Segment} {s : Segment} (hs : scanned.segments = before ++ s :: after)
    (hkind : s.kind = .lineComment) : after = [] := by
  obtain ⟨r, hr, -, hpainted, -⟩ := (scanLine_eq_ok_iff valid).1 h
  have hchain : scanned.segments.IsChain fun s t =>
      s.kind = .lineComment → t.kind = .lineComment :=
    (Segment.laid_ofPaintedFrom 0 scanned.painted).isChain_kind
      (R := fun kind kind' => kind = .lineComment → kind' = .lineComment)
      (hpainted ▸ hr.pairwise_kind.isChain)
  have hdiffer := (tiling_of_scanLine valid h).maximal
  rw [hs] at hchain hdiffer
  cases after with
  | nil => rfl
  | cons t after =>
    have hnext := (List.isChain_append_cons_cons.1 hchain).2.1 hkind
    exact absurd (hkind.trans hnext.symm) (List.isChain_append_cons_cons.1 hdiffer).2.1

/-- Any part of a string keeps a line from being a comment. -/
theorem category_ne_comment_of_string {s : Segment} (hs : s ∈ scanned.segments)
    (hkind : s.kind = .string) : scanned.category ≠ .comment := by
  obtain ⟨c, hc⟩ := (Segment.laid_ofPaintedFrom 0 scanned.painted).exists_mem_painted s hs
  have hshows : scanned.painted.any Painted.showsCode = true := by
    refine List.any_eq_true.2 ⟨_, hc, ?_⟩
    rw [hkind]
    rfl
  unfold ScannedLine.category Painted.category
  rw [hshows, if_pos rfl]
  split <;> simp

/-- The segments at the ends of a line and the states at its ends. From every state in range, every
line that is not empty and on which no comment is nested too deeply is scanned. A comment or string
that is open in front of it is its first segment. A line comment is its last segment, and then
nothing is open behind the line and no string was given up. A comment that is open behind the line is
its last segment, and so is a string that is open there or was given up. Behind code nothing is open,
and neither is where a string was given up. So a line that is a comment leaves no string open. -/
theorem scanLine_edges (p : Profile) (state : ScanState) (line : List Char) (number : Nat)
    (valid : p.Valid) (range : state.InRange p) (nonempty : line ≠ [])
    (fits : p.scanLine state line ≠ .error .tooDeep) :
    ∃ scanned result first last, p.scanLine state line = .ok scanned ∧
      p.classifyLine state number line = .ok (result, scanned.state) ∧
      scanned.segments.head? = some first ∧ scanned.segments.getLast? = some last ∧
      (state.isInBlock = true → first.kind = .blockComment) ∧
      (state.isInString = true → first.kind = .string) ∧
      (∀ before s after, scanned.segments = before ++ s :: after → s.kind = .lineComment →
        after = [] ∧ scanned.state = .normal ∧ scanned.unterminatedString = false) ∧
      (scanned.state.isInBlock = true → last.kind = .blockComment) ∧
      (scanned.state.isInString = true ∨ scanned.unterminatedString = true →
        last.kind = .string) ∧
      (last.kind = .code → scanned.state = .normal) ∧
      (scanned.unterminatedString = true → scanned.state = .normal) ∧
      (result.category = .comment → scanned.state.isInString = false) := by
  obtain ⟨scanned, hscan⟩ := exists_scanLine_of_fits valid range fits
  obtain ⟨first, hfirst, hentry⟩ := exists_first_segment valid hscan nonempty
  obtain ⟨last, hlast, hexit, hgiven⟩ := exists_last_segment valid hscan nonempty
  refine ⟨scanned, ⟨number, scanned.category, scanned.warning number⟩, first, last, hscan, ?_,
    hfirst, hlast, hentry.of_isInBlock, hentry.of_isInString, ?_, hexit.of_isInBlock, ?_, ?_,
    fun h => (hgiven h).2, ?_⟩
  · rw [classifyLine, hscan]
    rfl
  · intro before s after hs hkind
    obtain rfl := eq_nil_of_lineComment valid hscan hs hkind
    obtain rfl : s = last := by simpa [hs] using hlast
    refine ⟨rfl, hexit.eq_normal (.inr hkind), Bool.eq_false_iff.2 fun h => ?_⟩
    cases hkind.symm.trans (hgiven h).1
  · rintro (hin | h)
    · exact hexit.of_isInString hin
    · exact (hgiven h).1
  · exact fun hcode => hexit.eq_normal (.inl hcode)
  · intro hcomment
    refine Bool.eq_false_iff.2 fun hin => ?_
    exact category_ne_comment_of_string (List.mem_of_getLast? hlast) (hexit.of_isInString hin)
      hcomment

/-- A line that closes two comments and leaves a string open that may not go on: the string is its
last segment, and it is given up. -/
theorem scanLine_edges_givenUp :
    singleLine.Valid ∧ ScanState.InRange singleLine (.inBlock 0 2) ∧
      ∃ (scanned : ScannedLine) (first last : Segment),
        singleLine.scanLine (.inBlock 0 2) "a *) *) x \"b".toList = .ok scanned ∧
        scanned.segments.head? = some first ∧ scanned.segments.getLast? = some last ∧
        scanned.unterminatedString = true ∧ first.kind = .blockComment ∧ last.kind = .string ∧
        scanned.state = .normal := by
  have range : ScanState.InRange singleLine (.inBlock 0 2) := Nat.one_pos
  have hflag : (singleLine.scanLine (.inBlock 0 2) "a *) *) x \"b".toList).map
      (·.unterminatedString) = .ok true := by cbv
  have fits : singleLine.scanLine (.inBlock 0 2) "a *) *) x \"b".toList ≠ .error .tooDeep := by
    intro hdeep
    rw [hdeep] at hflag
    cases hflag
  obtain ⟨scanned, result, first, last, hscan, -, hfirst, hlast, hblock, -, -, -, hstring, -,
    hnormal, -⟩ := scanLine_edges singleLine (.inBlock 0 2) "a *) *) x \"b".toList 1 singleLine_valid
      range (by decide) fits
  rw [hscan] at hflag
  have hgiven : scanned.unterminatedString = true := Except.ok.inj hflag
  exact ⟨singleLine_valid, range, scanned, first, last, hscan, hfirst, hlast, hgiven, hblock rfl,
    hstring (.inr hgiven), hnormal hgiven⟩

end Profile

end SourceTally
