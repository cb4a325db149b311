import SourceTally.Proofs.Line
import SourceTally.Proofs.Scan.Tiling

/-!
# What shows on a line

The category of a line is decided by any part of a string and any code that is not white space. Here
it is said by the characters that show, those that are not white space, and the segments that they
lie in (`Profile.classifyLine_by_characters`): a line is code when one of them lies in code or in a
string, and a comment when there are some and all lie in comments.

The two agree because a string that is on a line shows on it (`Profile.Runs.showsString`): its
opening delimiter shows if it opens on the line, its closing delimiter shows if it closes there, and
otherwise the whole line is inside the string. For this no delimiter of a string may be white space
only (`Profile.StringsShow`).
-/

namespace SourceTally

namespace ScannedLine

/-- The character at place `i` of the line lies in a segment of the kind. -/
def KindAt (scanned : ScannedLine) (text : List Char) (i : Nat) (kind : Kind) : Prop :=
  ∃ s ∈ scanned.segments, s.kind = kind ∧ s.start ≤ Text.byteLength (text.take i) ∧
    Text.byteLength (text.take i) < s.stop

end ScannedLine

namespace Profile

variable {p : Profile} {state : ScanState} {rest text : List Char} {st : Step} {r : Run}
  {scanned : ScannedLine} {i : Nat} {c : Char} {kind : Kind}

/-- The segments show the kind that the scan gave to each character. -/
theorem kindAt_iff (valid : p.Valid) (h : p.scanLine state text = .ok scanned)
    (hi : scanned.painted[i]? = some (c, kind)) {kind' : Kind} :
    scanned.KindAt text i kind' ↔ kind' = kind := by
  have hholds := (Segment.laid_ofPaintedFrom 0 scanned.painted).holdsFrom_iff hi kind'
  simp only [Segment.HoldsFrom, text_of_scanLine valid h, Nat.zero_add] at hholds
  exact hholds

/-! ## Strings show -/

/-- No delimiter of a string is white space only. -/
def StringsShow (p : Profile) : Prop :=
  ∀ s ∈ p.strings, Text.isBlank s.opening = false ∧ Text.isBlank s.closing = false

/-- Some character of a string shows. -/
def ShowsString (painted : Painted) : Prop :=
  ∃ c, (c, Kind.string) ∈ painted ∧ Text.isSpace c = false

/-- A step takes part of a string that shows, or the scan is in a string before and after it just if
it takes part of one. -/
theorem Moves.showsString (h : p.Moves rest state st) (visible : p.StringsShow) :
    (st.kind = .string ∧ Text.isBlank (rest.take st.size) = false) ∨
      ((st.kind = .string ↔ state.kind = .string) ∧
        (st.state.kind = .string ↔ state.kind = .string)) := by
  cases h with
  | code | lineComment | openBlock | nest | unnest | closeBlock | inBlock =>
    exact .inr ⟨by simp [ScanState.kind], by simp [ScanState.kind]⟩
  | escaped | escape | inString => exact .inr ⟨Iff.rfl, Iff.rfl⟩
  | @openString pair s hs hopen =>
    refine .inl ⟨rfl, ?_⟩
    have hstands := (declares_of_opening? hopen).2
    rw [← List.prefix_iff_eq_take.1 hstands]
    exact (visible s (List.mem_of_getElem? hs)).1
  | @closeString pair s hs _ _ hclose =>
    refine .inl ⟨rfl, ?_⟩
    rw [← List.prefix_iff_eq_take.1 hclose]
    exact (visible s (List.mem_of_getElem? hs)).2
  | @doubled pair s hs _ hclose =>
    refine .inl ⟨rfl, ?_⟩
    have htake := List.prefix_iff_eq_take.1 hclose
    rw [List.length_append, ← Nat.two_mul] at htake
    rw [← htake, Text.isBlank_append, (visible s (List.mem_of_getElem? hs)).2]
    rfl

/-- On a text, a character of a string shows; or the scan begins in a string and nothing shows at
all; or it begins outside and there is no string. -/
theorem Runs.showsString (h : p.Runs state rest r) (visible : p.StringsShow) :
    ShowsString r.painted ∨ (state.kind = .string ∧ Text.isBlank rest = true) ∨
      (state.kind ≠ .string ∧ ∀ x ∈ r.painted, x.2 ≠ .string) := by
  induction h with
  | @nil state =>
    by_cases hkind : state.kind = .string
    · exact .inr (.inl ⟨hkind, rfl⟩)
    · exact .inr (.inr ⟨hkind, fun x hx => absurd hx List.not_mem_nil⟩)
  | @step state rest st more _ hmoves _ ih =>
    have hshows : st.kind = .string → Text.isBlank (rest.take st.size) = false →
        ShowsString ((rest.take st.size).map (·, st.kind) ++ more.painted) := by
      intro hkind hblank
      obtain ⟨c, hc, hspace⟩ := List.all_eq_false.1 hblank
      rw [hkind]
      exact ⟨c, List.mem_append_left _ (List.mem_map_of_mem hc), Bool.eq_false_iff.2 hspace⟩
    rcases hmoves.showsString visible with ⟨hkind, hblank⟩ | ⟨hkind, hnext⟩
    · exact .inl (hshows hkind hblank)
    rcases ih with ⟨c, hc, hspace⟩ | ⟨hstring, hblank⟩ | ⟨houtside, hnone⟩
    · exact .inl ⟨c, List.mem_append_right _ hc, hspace⟩
    · -- The scan goes on inside a string on which nothing shows.
      have hinside := hnext.1 hstring
      cases htaken : Text.isBlank (rest.take st.size) with
      | false => exact .inl (hshows (hkind.2 hinside) htaken)
      | true =>
        refine .inr (.inl ⟨hinside, ?_⟩)
        rw [← List.take_append_drop st.size rest, Text.isBlank_append, htaken, hblank]
        rfl
    · have hout : state.kind ≠ .string := hnext.not.1 houtside
      refine .inr (.inr ⟨hout, fun x hx => ?_⟩)
      rcases List.mem_append.1 hx with hx | hx
      · obtain ⟨_, -, rfl⟩ := List.mem_map.1 hx
        exact hkind.not.2 hout
      · exact hnone x hx

/-- A string on a line that is not blank shows. -/
theorem showsString_of_scanLine (valid : p.Valid) (visible : p.StringsShow)
    (h : p.scanLine state text = .ok scanned) (hblank : Text.isBlank text = false) {x : Char × Kind}
    (hx : x ∈ scanned.painted) (hkind : x.2 = .string) : ShowsString scanned.painted := by
  obtain ⟨r, hr, -, hpainted, -⟩ := (scanLine_eq_ok_iff valid).1 h
  rw [hpainted] at hx ⊢
  rcases hr.showsString visible with hshows | ⟨-, hall⟩ | ⟨-, hnone⟩
  · exact hshows
  · cases hblank.symm.trans hall
  · exact absurd hkind (hnone x hx)

/-! ## Categories -/

/-- A line is code when a character that shows is code or part of a string. -/
theorem category_eq_code_iff (valid : p.Valid) (visible : p.StringsShow)
    (h : p.scanLine state text = .ok scanned) :
    scanned.category = .code ↔
      ∃ x ∈ scanned.painted, Text.isSpace x.1 = false ∧ (x.2 = .code ∨ x.2 = .string) := by
  have hall : Text.isBlank text = scanned.painted.all (Text.isSpace ·.1) := by
    rw [← text_of_scanLine valid h, Text.isBlank, List.all_map]
    rfl
  rw [ScannedLine.category, Painted.category, ← hall]
  cases hblank : Text.isBlank text with
  | true =>
    rw [hblank] at hall
    refine iff_of_false (by simp) ?_
    rintro ⟨x, hx, hspace, -⟩
    cases hspace.symm.trans (List.all_eq_true.1 hall.symm x hx)
  | false =>
    have hany : (if scanned.painted.any Painted.showsCode then Category.code else .comment) = .code ↔
        ∃ x ∈ scanned.painted, Painted.showsCode x = true := by
      simp
    rw [if_neg Bool.false_ne_true, hany]
    constructor
    · rintro ⟨⟨c, kind⟩, hx, hshows⟩
      cases kind with
      | code => exact ⟨(c, .code), hx, by simpa [Painted.showsCode] using hshows, .inl rfl⟩
      | string =>
        obtain ⟨c', hc', hspace⟩ := showsString_of_scanLine valid visible h hblank hx rfl
        exact ⟨(c', .string), hc', hspace, .inr rfl⟩
      | lineComment | blockComment => cases hshows
    · rintro ⟨⟨c, kind⟩, hx, hspace, rfl | rfl⟩
      · exact ⟨(c, .code), hx, by simpa [Painted.showsCode] using hspace⟩
      · exact ⟨(c, .string), hx, rfl⟩

/-- The characters of the line are those that the scan gave a kind. -/
theorem getElem?_text_iff (valid : p.Valid) (h : p.scanLine state text = .ok scanned) :
    text[i]? = some c ↔ ∃ kind, scanned.painted[i]? = some (c, kind) := by
  rw [← text_of_scanLine valid h, List.getElem?_map, Option.map_eq_some_iff]
  simp

/-- A line is code when a character that shows lies in code or in a string. -/
theorem category_eq_code_iff_kindAt (valid : p.Valid) (visible : p.StringsShow)
    (h : p.scanLine state text = .ok scanned) :
    scanned.category = .code ↔ ∃ i c, text[i]? = some c ∧ Text.isSpace c = false ∧
      (scanned.KindAt text i .code ∨ scanned.KindAt text i .string) := by
  rw [category_eq_code_iff valid visible h]
  constructor
  · rintro ⟨⟨c, kind⟩, hx, hspace, hkind⟩
    obtain ⟨i, hi⟩ := List.mem_iff_getElem?.1 hx
    refine ⟨i, c, (getElem?_text_iff valid h).2 ⟨kind, hi⟩, hspace, ?_⟩
    rw [kindAt_iff valid h hi, kindAt_iff valid h hi]
    exact hkind.imp Eq.symm Eq.symm
  · rintro ⟨i, c, hi, hspace, hkind⟩
    obtain ⟨kind, hx⟩ := (getElem?_text_iff valid h).1 hi
    rw [kindAt_iff valid h hx, kindAt_iff valid h hx] at hkind
    exact ⟨(c, kind), List.mem_of_getElem? hx, hspace, hkind.imp Eq.symm Eq.symm⟩

/-- A line is a comment when a character shows and all that show lie in comments: it is neither blank
nor code. -/
theorem category_eq_comment_iff_kindAt (valid : p.Valid) (visible : p.StringsShow)
    (h : p.scanLine state text = .ok scanned) :
    scanned.category = .comment ↔ (∃ c ∈ text, Text.isSpace c = false) ∧
      ∀ i c, text[i]? = some c → Text.isSpace c = false →
        scanned.KindAt text i .lineComment ∨ scanned.KindAt text i .blockComment := by
  have hrest : scanned.category = .comment ↔
      ¬ scanned.category = .blank ∧ ¬ scanned.category = .code := by
    have hheader := scanned.category_ne_header
    cases hcategory : scanned.category <;> simp_all
  rw [hrest, category_eq_blank_iff_isBlank valid h, category_eq_code_iff_kindAt valid visible h]
  refine and_congr (by simp [Text.isBlank]) ?_
  push Not
  refine forall₂_congr fun i c => forall₂_congr fun hi _ => ?_
  obtain ⟨kind, hx⟩ := (getElem?_text_iff valid h).1 hi
  simp only [kindAt_iff valid h hx]
  cases kind <;> simp

/-- The category of a line by the characters that show on it. After any lines, every line on which no
comment is nested too deeply is classified. It is blank when nothing shows, code when something shows
that lies in code or in a string, and a comment when something shows and all that does lies in
comments. It is never a header. -/
theorem classifyLine_by_characters (p : Profile) (lines : List (List Char))
    (scans : List ScannedLine) (state : ScanState) (text : List Char) (number : Nat)
    (valid : p.Valid) (visible : p.StringsShow)
    (reached : p.scanLines .normal lines = .ok (scans, state))
    (fits : p.scanLine state text ≠ .error .tooDeep) :
    ∃ scanned result, p.scanLine state text = .ok scanned ∧
      p.classifyLine state number text = .ok (result, scanned.state) ∧
      (result.category = .blank ↔ ∀ c ∈ text, Text.isSpace c = true) ∧
      (result.category = .code ↔ ∃ i c, text[i]? = some c ∧ Text.isSpace c = false ∧
        (scanned.KindAt text i .code ∨ scanned.KindAt text i .string)) ∧
      (result.category = .comment ↔ (∃ c ∈ text, Text.isSpace c = false) ∧
        ∀ i c, text[i]? = some c → Text.isSpace c = false →
          scanned.KindAt text i .lineComment ∨ scanned.KindAt text i .blockComment) ∧
      result.category ≠ .header := by
  have start : ScanState.Sound p 0 .normal := .normal
  have range := (sound_of_scanLines valid reached start).inRange
  obtain ⟨scanned, hscan⟩ := exists_scanLine_of_fits valid range fits
  refine ⟨scanned, ⟨number, scanned.category, scanned.warning number⟩, hscan, ?_, ?_,
    category_eq_code_iff_kindAt valid visible hscan,
    category_eq_comment_iff_kindAt valid visible hscan, scanned.category_ne_header⟩
  · rw [classifyLine, hscan]
    rfl
  · rw [category_eq_blank_iff_isBlank valid hscan, Text.isBlank, List.all_eq_true]

/-- A line that begins inside a string with white space, closes the string and opens a comment: the
closing delimiter is what shows of the string. -/
theorem classifyLine_by_characters_string :
    sample.Valid ∧ sample.StringsShow ∧ ∃ (scans : List ScannedLine) (scanned : ScannedLine)
      (result : LineResult),
      sample.scanLines .normal ["\"a".toList] = .ok (scans, .inString 0 false) ∧
      sample.scanLine (.inString 0 false) "  \" /* b".toList = .ok scanned ∧
      sample.classifyLine (.inString 0 false) 2 "  \" /* b".toList = .ok (result, scanned.state) ∧
      scanned.KindAt "  \" /* b".toList 2 .string ∧ result.category = .code := by
  have visible : sample.StringsShow := by
    unfold StringsShow
    decide
  obtain ⟨scans, reached⟩ :
      ∃ scans, sample.scanLines .normal ["\"a".toList] = .ok (scans, .inString 0 false) :=
    ⟨_, by cbv⟩
  have hpainted : (sample.scanLine (.inString 0 false) "  \" /* b".toList).map
      (·.painted[2]?) = .ok (some ('"', .string)) := by cbv
  have fits : sample.scanLine (.inString 0 false) "  \" /* b".toList ≠ .error .tooDeep := by
    intro hdeep
    rw [hdeep] at hpainted
    cases hpainted
  obtain ⟨scanned, result, hscan, hresult, -, hcode, -⟩ := classifyLine_by_characters sample
    ["\"a".toList] scans (.inString 0 false) "  \" /* b".toList 2 sample_valid visible reached fits
  rw [hscan] at hpainted
  have hkind : scanned.KindAt "  \" /* b".toList 2 .string :=
    (kindAt_iff sample_valid hscan (Except.ok.inj hpainted)).2 rfl
  exact ⟨sample_valid, visible, scans, scanned, result, reached, hscan, hresult, hkind,
    hcode.2 ⟨2, '"', by decide, by decide, .inr hkind⟩⟩

end Profile

end SourceTally
