import SourceTally.Proofs.Scan.Run
import SourceTally.Scan.Segment

/-!
# The segments of a line

The segments of a scanned line tile the line (`Segment.Tiling`): none is empty, each begins where
the one before it ends, together they reach from the first byte to the last, they begin and end
between characters, and neighbours differ in kind. `Segment.Laid` says the same of a painted text
from the inside, one segment after the other, as `Segment.ofPaintedFrom` puts them down
(`Segment.laid_ofPaintedFrom`); each part of the tiling is then a short induction.

Every line that can be scanned is tiled (`Profile.tiling_of_scanLine`), whatever the state it is
scanned from. A character lies in a segment when its first byte does, and so the segments give every
character its kind back (`Segment.Laid.holdsFrom_iff`).
-/

namespace SourceTally

namespace Text

/-- The number of bytes of a text is the size of its encoding in UTF-8. -/
theorem byteLength_eq_utf8ByteSize (text : List Char) :
    byteLength text = (String.ofList text).utf8ByteSize := by
  induction text with
  | nil => rfl
  | cons c cs ih =>
    rw [← List.singleton_append, byteLength_append, ih, String.ofList_append,
      String.utf8ByteSize_append]
    simp [byteLength]

/-- The first part of a text ends at the boundary of a character. -/
theorem isValid_byteLength (before after : List Char) :
    String.Pos.Raw.IsValid (String.ofList (before ++ after)) ⟨byteLength before⟩ := by
  refine String.Pos.Raw.isValid_ofList.2 ⟨before.length, ?_⟩
  rw [List.take_left, ← byteLength_eq_utf8ByteSize]

end Text

namespace Segment

/-- The characters of the segment, each of its kind. -/
def painted (s : Segment) : Painted :=
  s.text.map (·, s.kind)

/-- The segments tile the line. -/
structure Tiling (line : List Char) (segments : List Segment) : Prop where
  /-- Only the empty line has none. -/
  eq_nil_iff : segments = [] ↔ line = []
  start_lt_stop : ∀ s ∈ segments, s.start < s.stop
  start_eq_zero : ∀ s, segments.head? = some s → s.start = 0
  /-- Each begins where the one before it ends. -/
  adjacent : segments.IsChain fun s t => t.start = s.stop
  stop_eq_size : ∀ s, segments.getLast? = some s → s.stop = (String.ofList line).utf8ByteSize
  /-- The text of a segment is what stands between its start and its stop. -/
  text_between : ∀ s ∈ segments, ∃ before after, line = before ++ s.text ++ after ∧
    s.start = Text.byteLength before
  /-- Each begins and ends at the boundary of a character. -/
  boundaries : ∀ s ∈ segments, String.Pos.Raw.IsValid (String.ofList line) ⟨s.start⟩ ∧
    String.Pos.Raw.IsValid (String.ofList line) ⟨s.stop⟩
  /-- Neighbours differ in kind. -/
  maximal : segments.IsChain fun s t => s.kind ≠ t.kind

/-! ## Laid segments -/

/-- The characters of a segment are its text. -/
@[simp]
theorem map_fst_painted (s : Segment) : s.painted.map Prod.fst = s.text := by
  rw [painted, List.map_map]
  exact List.map_id _

/-- The painted text, behind `start` bytes, is laid out as the segments, none of which could take
in more. -/
inductive Laid : Nat → Painted → List Segment → Prop where
  | nil {start : Nat} : Laid start [] []
  | cons {start : Nat} {s : Segment} {painted : Painted} {segments : List Segment} :
      s.start = start → s.text ≠ [] → (∀ t, segments.head? = some t → s.kind ≠ t.kind) →
      Laid s.stop painted segments → Laid start (s.painted ++ painted) (s :: segments)

/-- The segments of a painted text are laid out. -/
theorem laid_ofPaintedFrom (start : Nat) (painted : Painted) :
    Laid start painted (ofPaintedFrom start painted) := by
  induction painted generalizing start with
  | nil => exact .nil
  | cons head rest ih =>
    obtain ⟨c, kind⟩ := head
    have hrest := ih (start + c.utf8Size)
    have hone : ∀ {segments : List Segment}, (∀ t, segments.head? = some t → kind ≠ t.kind) →
        Laid (start + c.utf8Size) rest segments →
        Laid start ((c, kind) :: rest) (⟨kind, start, [c]⟩ :: segments) := fun hdiffer hlaid =>
      .cons (s := ⟨kind, start, [c]⟩) rfl (List.cons_ne_nil _ _) hdiffer hlaid
    rw [ofPaintedFrom]
    cases hmore : ofPaintedFrom (start + c.utf8Size) rest with
    | nil => exact hone nofun (hmore ▸ hrest)
    | cons s more =>
      rw [hmore] at hrest
      by_cases hkind : s.kind = kind
      · -- The character joins the segment behind it.
        rw [← hkind]
        cases hrest with
        | cons hstart _ hdiffer hlaid =>
          have hstop : s.stop = stop ⟨s.kind, start, c :: s.text⟩ := by
            rw [stop, hstart]
            exact Nat.add_assoc _ _ _
          rw [hstop] at hlaid
          simp only [if_true]
          exact .cons (s := ⟨s.kind, start, c :: s.text⟩) rfl (List.cons_ne_nil _ _) hdiffer hlaid
      · simp only [if_neg hkind]
        refine hone (fun t ht => ?_) hrest
        cases ht
        exact Ne.symm hkind

section

variable {start : Nat} {painted : Painted} {segments : List Segment} {s : Segment}

/-- Only the empty text has no segments. -/
theorem Laid.eq_nil_iff (h : Laid start painted segments) : segments = [] ↔ painted = [] := by
  cases h with
  | nil => exact iff_of_true rfl rfl
  | cons _ htext => simp [Segment.painted, htext]

/-- The first segment stands at the start. -/
theorem Laid.start_eq (h : Laid start painted segments) (hs : segments.head? = some s) :
    s.start = start := by
  cases h with
  | nil => cases hs
  | cons hstart => cases hs; exact hstart

/-- No segment is empty. -/
theorem Laid.start_lt_stop (h : Laid start painted segments) :
    ∀ s ∈ segments, s.start < s.stop := by
  induction h with
  | nil => nofun
  | cons _ htext _ _ ih =>
    refine List.forall_mem_cons.2 ⟨?_, ih⟩
    have hpos := Text.byteLength_pos htext
    simp only [stop]
    omega

/-- Each segment begins where the one before it ends, and is of another kind. -/
theorem Laid.isChain (h : Laid start painted segments) :
    segments.IsChain fun s t => t.start = s.stop ∧ s.kind ≠ t.kind := by
  induction h with
  | nil => exact .nil
  | @cons start s painted segments _ _ hdiffer hlaid ih =>
    cases segments with
    | nil => exact .singleton _
    | cons t more => exact .cons_cons ⟨hlaid.start_eq rfl, hdiffer t rfl⟩ ih

/-- The last segment ends where the text does. -/
theorem Laid.stop_eq (h : Laid start painted segments) (hs : segments.getLast? = some s) :
    s.stop = start + Text.byteLength (painted.map Prod.fst) := by
  induction h with
  | nil => cases hs
  | @cons start first painted segments hstart _ _ hlaid ih =>
    rw [List.map_append, map_fst_painted, Text.byteLength_append, ← Nat.add_assoc, ← hstart]
    cases segments with
    | nil =>
      obtain rfl := hlaid.eq_nil_iff.1 rfl
      cases hs
      rfl
    | cons t more =>
      rw [List.getLast?_cons_cons] at hs
      exact ih hs

/-- The text of each segment stands behind as many bytes as its start says. -/
theorem Laid.text_between (h : Laid start painted segments) :
    ∀ s ∈ segments, ∃ before after, painted.map Prod.fst = before ++ s.text ++ after ∧
      s.start = start + Text.byteLength before := by
  induction h with
  | nil => nofun
  | @cons start first painted segments hstart _ _ _ ih =>
    rw [List.map_append, map_fst_painted]
    refine List.forall_mem_cons.2 ⟨⟨[], _, rfl, hstart⟩, fun s hs => ?_⟩
    obtain ⟨before, after, hpainted, hbefore⟩ := ih s hs
    refine ⟨first.text ++ before, after, ?_, ?_⟩
    · rw [hpainted]
      simp only [List.append_assoc]
    · rw [hbefore, stop, hstart, Text.byteLength_append, Nat.add_assoc]

/-- The segments hold the painted characters, in their order. -/
theorem Laid.flatMap_painted (h : Laid start painted segments) :
    segments.flatMap Segment.painted = painted := by
  induction h with
  | nil => rfl
  | cons _ _ _ _ ih => rw [List.flatMap_cons, ih]

/-- No segment stands in front of the start. -/
theorem Laid.start_le (h : Laid start painted segments) : ∀ s ∈ segments, start ≤ s.start := by
  induction h with
  | nil => nofun
  | @cons start first painted segments hstart _ _ _ ih =>
    refine List.forall_mem_cons.2 ⟨hstart.ge, fun s hs => ?_⟩
    have hle := ih s hs
    simp only [stop] at hle
    omega

/-- The character at place `i` lies in the segment, when the line stands behind `start` bytes: its
first byte is one of the segment's. -/
def HoldsFrom (start : Nat) (s : Segment) (line : List Char) (i : Nat) : Prop :=
  s.start ≤ start + Text.byteLength (line.take i) ∧
    start + Text.byteLength (line.take i) < s.stop

/-- The character at each place lies in segments of its own kind only, and in one of them. -/
theorem Laid.holdsFrom_iff (h : Laid start painted segments) {i : Nat} {c : Char} {kind : Kind}
    (hi : painted[i]? = some (c, kind)) (kind' : Kind) :
    (∃ s ∈ segments, s.kind = kind' ∧ HoldsFrom start s (painted.map Prod.fst) i) ↔
      kind' = kind := by
  induction h generalizing i with
  | nil => cases hi
  | @cons start first painted segments hstart _ _ hlaid ih =>
    rw [List.map_append, map_fst_painted]
    have hlength : first.painted.length = first.text.length := List.length_map _
    rcases Nat.lt_or_ge i first.text.length with hlt | hge
    · -- The place is one of the first segment's, and the other segments stand behind it.
      have htake : (first.text ++ painted.map Prod.fst).take i = first.text.take i :=
        List.take_append_of_le_length hlt.le
      have hbytes := Text.byteLength_take_add_drop i first.text
      have hpos := Text.byteLength_pos (List.drop_eq_nil_iff.not.2 (Nat.not_le.2 hlt))
      have hkind : first.kind = kind := by
        rw [List.getElem?_append_left (hlength ▸ hlt), Segment.painted, List.getElem?_map,
          Option.map_eq_some_iff] at hi
        obtain ⟨_, -, hpair⟩ := hi
        exact congrArg Prod.snd hpair
      simp only [HoldsFrom, htake]
      constructor
      · rintro ⟨s, hs, rfl, hle, -⟩
        rcases List.mem_cons.1 hs with rfl | hs
        · exact hkind
        · have hbehind := hlaid.start_le s hs
          simp only [stop] at hbehind
          omega
      · rintro rfl
        refine ⟨first, List.mem_cons_self, hkind, ?_⟩
        simp only [stop]
        omega
    · have htake : (first.text ++ painted.map Prod.fst).take i =
          first.text ++ (painted.map Prod.fst).take (i - first.text.length) := by
        rw [List.take_append, List.take_of_length_le hge]
      have hshift : ∀ s, HoldsFrom start s (first.text ++ painted.map Prod.fst) i ↔
          HoldsFrom first.stop s (painted.map Prod.fst) (i - first.text.length) := by
        intro s
        simp only [HoldsFrom, htake, Text.byteLength_append, stop, hstart, Nat.add_assoc]
      rw [List.getElem?_append_right (hlength ▸ hge), hlength] at hi
      rw [← ih hi]
      simp only [hshift]
      constructor
      · rintro ⟨s, hs, hkind, hholds⟩
        rcases List.mem_cons.1 hs with rfl | hs
        · exact absurd hholds.2 (by omega)
        · exact ⟨s, hs, hkind, hholds⟩
      · rintro ⟨s, hs, hkind, hholds⟩
        exact ⟨s, List.mem_cons_of_mem _ hs, hkind, hholds⟩

/-- Segments that are laid out from the first byte on tile the line. -/
theorem Laid.tiling (h : Laid 0 painted segments) : Tiling (painted.map Prod.fst) segments where
  eq_nil_iff := by rw [h.eq_nil_iff, List.map_eq_nil_iff]
  start_lt_stop := h.start_lt_stop
  start_eq_zero _ hs := h.start_eq hs
  adjacent := h.isChain.imp fun _ _ => And.left
  stop_eq_size _ hs := by
    rw [h.stop_eq hs, Nat.zero_add, Text.byteLength_eq_utf8ByteSize]
  text_between := by simpa only [Nat.zero_add] using h.text_between
  boundaries s hs := by
    obtain ⟨before, after, hline, hstart⟩ := h.text_between s hs
    rw [Nat.zero_add] at hstart
    have hstop : s.stop = Text.byteLength (before ++ s.text) := by
      rw [stop, hstart, Text.byteLength_append]
    rw [hline, hstart, hstop]
    refine ⟨?_, Text.isValid_byteLength _ _⟩
    rw [List.append_assoc]
    exact Text.isValid_byteLength _ _
  maximal := h.isChain.imp fun _ _ => And.right

end

end Segment

namespace Profile

/-- The segments of a scanned line tile the line. -/
theorem tiling_of_scanLine {p : Profile} {state : ScanState} {line : List Char}
    {scanned : ScannedLine} (valid : p.Valid) (h : p.scanLine state line = .ok scanned) :
    Segment.Tiling line scanned.segments := by
  have htiling := (Segment.laid_ofPaintedFrom 0 scanned.painted).tiling
  rwa [text_of_scanLine valid h] at htiling

/-- From every state in range, every line for which the depth has room is scanned, and its segments
tile it; they hold its characters with the kinds that the scan gave them. Each step of the scan
takes a byte or more, and no more than is left of the line. -/
theorem exists_scanLine_tiling (p : Profile) (state : ScanState) (line : List Char)
    (valid : p.Valid) (range : state.InRange p)
    (room : state.depth + Text.byteLength line < 2 ^ 32) :
    ∃ scanned, p.scanLine state line = .ok scanned ∧ Segment.Tiling line scanned.segments ∧
      scanned.segments.flatMap Segment.painted = scanned.painted ∧ p.Advances state line := by
  obtain ⟨scanned, hscan⟩ := exists_scanLine valid range room
  exact ⟨scanned, hscan, tiling_of_scanLine valid hscan,
    (Segment.laid_ofPaintedFrom 0 scanned.painted).flatMap_painted,
    advances_of_inRange valid range room⟩

/-- A line that closes two comments, with a string and a line comment behind them and characters of
more than one byte in all three. -/
theorem exists_scanLine_tiling_mixed :
    ScanState.InRange sample (.inBlock 1 2) ∧ ∃ scanned,
      sample.scanLine (.inBlock 1 2) "é*)*) \"ü\"//ä".toList = .ok scanned ∧
      scanned.segments.map (fun s => (s.kind, s.start, s.stop)) =
        [(.blockComment, 0, 6), (.code, 6, 7), (.string, 7, 11), (.lineComment, 11, 15)] ∧
      Segment.Tiling "é*)*) \"ü\"//ä".toList scanned.segments ∧
      sample.Advances (.inBlock 1 2) "é*)*) \"ü\"//ä".toList := by
  have range : ScanState.InRange sample (.inBlock 1 2) := by
    simp only [ScanState.InRange]
    decide
  obtain ⟨scanned, hscan, htiling, -, hadvances⟩ := exists_scanLine_tiling sample (.inBlock 1 2)
    "é*)*) \"ü\"//ä".toList sample_valid range (by decide)
  refine ⟨range, scanned, hscan, ?_, htiling, hadvances⟩
  have hsegments : (sample.scanLine (.inBlock 1 2) "é*)*) \"ü\"//ä".toList).map
      (·.segments.map fun s => (s.kind, s.start, s.stop)) =
      .ok [(.blockComment, 0, 6), (.code, 6, 7), (.string, 7, 11), (.lineComment, 11, 15)] := by cbv
  rw [hscan] at hsegments
  exact Except.ok.inj hsegments

end Profile

end SourceTally
