import SourceTally.Proofs.Scan.Rules
import SourceTally.Scan.Line

/-!
# Scans of lines

A scan of a line is a derivation: steps by the rules until the line is used up (`Profile.Runs`),
then what the end of the line does (`Profile.Ends`). For a valid profile these are the successful
runs of `Profile.scanLine` (`Profile.scanLine_eq_ok_iff`), and `Profile.scanLines` threads the state
through the lines of a file.

From a state that names a pair of the profile (`ScanState.InRange`) a line can be scanned as long as
its depth and the bytes of the line stay below 2³² together (`Profile.exists_scanLine`), and in any
case as long as no comment is nested too deeply (`Profile.exists_scanLine_of_fits`). Each step of
such a scan takes a byte or more and stays on the line (`Profile.advances_of_inRange`). A state that
a scan leaves behind is sound (`ScanState.Sound`): it is in range, and its depth is at most the
number of bytes read. So a scan of fewer than 2³² bytes never fails (`Profile.exists_scanLines`).
-/

namespace SourceTally

namespace Profile

variable {p : Profile} {state next last : ScanState} {rest line : List Char} {st : Step} {r : Run}
  {unterminated : Bool} {scanned : ScannedLine} {size : Nat} {lines : List (List Char)}
  {scans : List ScannedLine}

/-! ## Runs -/

/-- The steps of a scan over a text, with the outcome that they add up to. -/
inductive Runs (p : Profile) : ScanState → List Char → Run → Prop where
  | nil {state : ScanState} : p.Runs state [] ⟨[], state, false⟩
  | step {state : ScanState} {rest : List Char} {st : Step} {more : Run} : rest ≠ [] →
      p.Moves rest state st → p.Runs st.state (rest.drop st.size) more →
      p.Runs state rest
        ⟨(rest.take st.size).map (·, st.kind) ++ more.painted, more.state,
          st.closesBlock || more.closedBlock⟩

/-- A run is a derivation. -/
theorem runs_of_run (valid : p.Valid) (h : p.run state rest = .ok r) : p.Runs state rest r := by
  fun_induction p.run state rest generalizing r with
  | case1 => cases h; exact .nil
  | case2 => cases h
  | case3 => cases h
  | case4 state c cs st hst more hmore ih =>
    cases h
    have hmoves := moves_of_step hst
    obtain ⟨n, hn⟩ := hmoves.exists_size_eq valid (List.cons_ne_nil c cs)
    have hrest := ih hmore
    rw [hn, Nat.add_sub_cancel] at hrest ⊢
    have := Runs.step (List.cons_ne_nil c cs) hmoves
      (by rw [hn, List.drop_succ_cons]; exact hrest)
    rwa [hn, List.take_succ_cons] at this

/-- A derivation is a run. -/
theorem Runs.run_eq (valid : p.Valid) (h : p.Runs state rest r) : p.run state rest = .ok r := by
  induction h with
  | nil => rw [run]
  | @step state rest st more hne hmoves _ ih =>
    obtain ⟨c, cs, rfl⟩ := List.exists_cons_of_ne_nil hne
    obtain ⟨n, hn⟩ := hmoves.exists_size_eq valid hne
    rw [hn, List.drop_succ_cons] at ih
    rw [run, hmoves.step_eq]
    simp only [hn, Nat.add_sub_cancel, ih, List.take_succ_cons]

/-- A run over nothing stays where it is. -/
theorem Runs.state_of_nil (h : p.Runs state [] r) : r.state = state := by
  cases h with
  | nil => rfl
  | step hne => exact absurd rfl hne

/-- The characters of a run are those of its text. -/
theorem Runs.text (h : p.Runs state rest r) : r.painted.map Prod.fst = rest := by
  induction h with
  | nil => rfl
  | @step state rest st more _ _ _ ih =>
    rw [List.map_append, ih, List.map_map]
    exact (congrArg (· ++ _) (List.map_id _)).trans (List.take_append_drop _ _)

/-! ## Ends of lines -/

/-- What the end of a line does to a state, and whether it gives up a string. -/
inductive Ends (p : Profile) : ScanState → ScanState → Bool → Prop where
  | normal : p.Ends .normal .normal false
  | inBlock {pair depth : Nat} : p.Ends (.inBlock pair depth) (.inBlock pair depth) false
  /-- An escape takes the line break. -/
  | escaped {pair : Nat} : p.Ends (.inString pair true) (.inString pair false) false
  | multiline {pair : Nat} {s : StringPair} : p.strings[pair]? = some s → s.multiline = true →
      p.Ends (.inString pair false) (.inString pair false) false
  | givenUp {pair : Nat} {s : StringPair} : p.strings[pair]? = some s → s.multiline = false →
      p.Ends (.inString pair false) .normal true

/-- The end of a line goes by the rules. -/
theorem endLine_eq_ok_iff :
    p.endLine state = .ok (next, unterminated) ↔ p.Ends state next unterminated := by
  constructor
  · intro h
    cases state with
    | normal => cases h; exact .normal
    | inBlock pair depth => cases h; exact .inBlock
    | inString pair escaped =>
      cases escaped with
      | true => cases h; exact .escaped
      | false =>
        simp only [endLine] at h
        split at h
        next s hs =>
          cases hm : s.multiline with
          | true => rw [hm] at h; cases h; exact .multiline hs hm
          | false => rw [hm] at h; cases h; exact .givenUp hs hm
        · cases h
  · intro h
    cases h with
    | normal | inBlock | escaped => rfl
    | multiline hs hm | givenUp hs hm => simp [endLine, hs, hm]

/-- A scan of a line is a derivation over its characters, followed by the end of the line. -/
theorem scanLine_eq_ok_iff (valid : p.Valid) :
    p.scanLine state line = .ok scanned ↔
      ∃ r, p.Runs state line r ∧ p.Ends r.state scanned.state scanned.unterminatedString ∧
        scanned.painted = r.painted ∧ scanned.closedBlock = r.closedBlock := by
  simp only [scanLine, bind_eq_ok_iff, Prod.exists]
  constructor
  · rintro ⟨r, hr, next, unterminated, hend, h⟩
    cases h
    exact ⟨r, runs_of_run valid hr, endLine_eq_ok_iff.1 hend, rfl, rfl⟩
  · rintro ⟨r, hr, hend, hpainted, hclosed⟩
    refine ⟨r, hr.run_eq valid, _, _, endLine_eq_ok_iff.2 hend, ?_⟩
    rw [← hpainted, ← hclosed]
    rfl

/-- The characters of a scanned line are those of the line. -/
theorem text_of_scanLine (valid : p.Valid) (h : p.scanLine state line = .ok scanned) :
    scanned.painted.map Prod.fst = line := by
  obtain ⟨r, hr, -, hpainted, -⟩ := (scanLine_eq_ok_iff valid).1 h
  rw [hpainted, hr.text]

end Profile

/-! ## States in range -/

/-- The pair that the state names is one of the profile's. -/
def ScanState.InRange (p : Profile) : ScanState → Prop
  | .normal => True
  | .inBlock pair _ => pair < p.blockComments.length
  | .inString pair _ => pair < p.strings.length

/-- The number of delimiters of block comments that are still to be closed. -/
def ScanState.depth : ScanState → Nat
  | .inBlock _ depth => depth
  | .normal | .inString _ _ => 0

namespace Profile

variable {p : Profile} {state next last : ScanState} {rest line : List Char} {st : Step} {r : Run}
  {unterminated : Bool} {scanned : ScannedLine} {size : Nat} {lines : List (List Char)}
  {scans : List ScannedLine}

/-- A step leads to a state in range. -/
theorem Moves.inRange (h : p.Moves rest state st) : st.state.InRange p := by
  cases h with
  | code | lineComment | closeBlock | closeString => trivial
  | openBlock hb | nest hb | unnest hb | inBlock hb => exact (List.getElem?_eq_some_iff.1 hb).1
  | openString hs | escaped hs | escape hs | doubled hs | inString hs =>
    exact (List.getElem?_eq_some_iff.1 hs).1

/-- The opening delimiter of a block comment takes a byte. -/
theorem Valid.opening_bytes_pos (valid : p.Valid) {pair : Nat} {b : BlockPair}
    (hb : p.blockComments[pair]? = some b) (hopen : b.opening <+: rest) :
    0 < Text.byteLength (rest.take b.opening.length) := by
  rw [← List.prefix_iff_eq_take.1 hopen]
  exact Text.byteLength_pos (valid.block hb).opening_ne_nil

/-- A step makes a comment deeper by no more than the bytes that it takes. -/
theorem Moves.depth_le (valid : p.Valid) (h : p.Moves rest state st) :
    st.state.depth ≤ state.depth + Text.byteLength (rest.take st.size) := by
  cases h with
  | code | lineComment | closeBlock | closeString => exact Nat.zero_le _
  | openString | escaped | escape | doubled | inString => exact Nat.zero_le _
  | openBlock hb ho =>
    have := valid.opening_bytes_pos hb (declares_of_opening? ho).2
    simp only [ScanState.depth]
    omega
  | nest hb _ hopen =>
    have := valid.opening_bytes_pos hb hopen
    simp only [ScanState.depth]
    omega
  | unnest | inBlock =>
    simp only [ScanState.depth]
    omega

/-- The depth and the bytes still to be read do not grow together. -/
theorem Moves.depth_add_drop_le (valid : p.Valid) (h : p.Moves rest state st) :
    st.state.depth + Text.byteLength (rest.drop st.size) ≤
      state.depth + Text.byteLength rest := by
  have hdepth := h.depth_le valid
  have hbytes := Text.byteLength_take_add_drop st.size rest
  omega

/-- From a state in range a step can be taken, as long as there is room for the depth to grow. -/
theorem exists_moves (valid : p.Valid) (range : state.InRange p)
    (room : state.depth + Text.byteLength rest < 2 ^ 32) : ∃ st, p.Moves rest state st := by
  cases state with
  | normal => exact exists_moves_normal p rest
  | inString pair escaped =>
    exact exists_moves_inString (List.getElem?_eq_getElem range) escaped rest
  | inBlock pair depth =>
    have hb := List.getElem?_eq_getElem range
    refine exists_moves_inBlock hb rest fun _ hopen => ?_
    have hrest : rest ≠ [] := fun hnil =>
      (valid.block hb).opening_ne_nil (List.prefix_nil.1 (hnil ▸ hopen))
    have hpos := Text.byteLength_pos hrest
    simp only [ScanState.depth] at room
    unfold maxDepth
    omega

/-- From a state in range a text can be scanned, as long as there is room for the depth to grow. -/
theorem exists_runs (valid : p.Valid) {state : ScanState} {rest : List Char}
    (range : state.InRange p) (room : state.depth + Text.byteLength rest < 2 ^ 32) :
    ∃ r, p.Runs state rest r := by
  by_cases hne : rest = []
  · subst hne
    exact ⟨_, .nil⟩
  obtain ⟨st, hmoves⟩ := exists_moves valid range room
  have hpos := hmoves.size_pos valid hne
  have hlen := List.length_pos_iff.2 hne
  have ⟨more, hmore⟩ : ∃ more, p.Runs st.state (rest.drop st.size) more :=
    exists_runs valid hmoves.inRange (Nat.lt_of_le_of_lt (hmoves.depth_add_drop_le valid) room)
  exact ⟨_, .step hne hmoves hmore⟩
termination_by rest.length
decreasing_by rw [List.length_drop]; omega

/-- A run from a state in range leads to one. -/
theorem Runs.inRange (h : p.Runs state rest r) (range : state.InRange p) : r.state.InRange p := by
  induction h with
  | nil => exact range
  | step _ hmoves _ ih => exact ih hmoves.inRange

/-- From a state in range the end of a line does not fail. -/
theorem exists_ends (range : state.InRange p) :
    ∃ next unterminated, p.Ends state next unterminated := by
  cases state with
  | normal => exact ⟨_, _, .normal⟩
  | inBlock pair depth => exact ⟨_, _, .inBlock⟩
  | inString pair escaped =>
    have hs := List.getElem?_eq_getElem range
    cases escaped with
    | true => exact ⟨_, _, .escaped⟩
    | false =>
      cases hm : (p.strings[pair]).multiline with
      | true => exact ⟨_, _, .multiline hs hm⟩
      | false => exact ⟨_, _, .givenUp hs hm⟩

/-- The end of a line keeps the state in range. -/
theorem Ends.inRange (h : p.Ends state next unterminated) (range : state.InRange p) :
    next.InRange p := by
  cases h with
  | normal | givenUp => trivial
  | inBlock | escaped | multiline => exact range

/-- A scan of a line from a state in range leads to one. -/
theorem inRange_of_scanLine (valid : p.Valid) (h : p.scanLine state line = .ok scanned)
    (range : state.InRange p) : scanned.state.InRange p := by
  obtain ⟨r, hr, hend, -, -⟩ := (scanLine_eq_ok_iff valid).1 h
  exact hend.inRange (hr.inRange range)

/-- A run makes a comment deeper by no more than the bytes that it takes. -/
theorem Runs.depth_le (valid : p.Valid) (h : p.Runs state rest r) :
    r.state.depth ≤ state.depth + Text.byteLength rest := by
  induction h with
  | nil => exact Nat.le_add_right _ _
  | step _ hmoves _ ih => exact Nat.le_trans ih (hmoves.depth_add_drop_le valid)

/-- The end of a line makes no comment deeper. -/
theorem Ends.depth_le (h : p.Ends state next unterminated) : next.depth ≤ state.depth := by
  cases h with
  | normal | inBlock | escaped | multiline | givenUp => exact Nat.le_refl _

/-- A line makes a comment deeper by no more than its bytes. -/
theorem depth_le_of_scanLine (valid : p.Valid) (h : p.scanLine state line = .ok scanned) :
    scanned.state.depth ≤ state.depth + Text.byteLength line := by
  obtain ⟨r, hr, hend, -, -⟩ := (scanLine_eq_ok_iff valid).1 h
  exact Nat.le_trans hend.depth_le (hr.depth_le valid)

/-- A line is scanned when a run from a state in range gets through it. -/
theorem Runs.exists_scanLine (valid : p.Valid) (range : state.InRange p) (hr : p.Runs state line r) :
    ∃ scanned, p.scanLine state line = .ok scanned := by
  obtain ⟨next, unterminated, hend⟩ := exists_ends (hr.inRange range)
  exact ⟨⟨r.painted, next, unterminated, r.closedBlock⟩,
    (scanLine_eq_ok_iff valid).2 ⟨r, hr, hend, rfl, rfl⟩⟩

/-- From a state in range a line can be scanned, as long as there is room for the depth to grow. -/
theorem exists_scanLine (valid : p.Valid) (range : state.InRange p)
    (room : state.depth + Text.byteLength line < 2 ^ 32) :
    ∃ scanned, p.scanLine state line = .ok scanned := by
  obtain ⟨r, hr⟩ := exists_runs valid range room
  exact hr.exists_scanLine valid range

/-- From a state in range a step fails only where a comment is nested too deeply. -/
theorem step_error_of_inRange {fault : Fault} (range : state.InRange p)
    (h : p.step state rest = .error fault) : fault = .tooDeep := by
  cases state with
  | normal => cases h
  | inString pair escaped =>
    rw [step, List.getElem?_eq_getElem range] at h
    cases h
  | inBlock pair depth =>
    rw [step, List.getElem?_eq_getElem range] at h
    simp only [BlockPair.step] at h
    split at h
    · split at h <;> cases h
      rfl
    · split at h
      · split at h <;> cases h
      · cases h

/-- From a state in range a run fails only where a comment is nested too deeply. -/
theorem run_error_of_inRange {fault : Fault} (range : state.InRange p)
    (h : p.run state rest = .error fault) : fault = .tooDeep := by
  fun_induction p.run state rest with
  | case1 => cases h
  | case2 _ _ _ _ hst =>
    cases h
    exact step_error_of_inRange range hst
  | case3 _ _ _ _ hst _ hmore ih =>
    cases h
    exact ih (moves_of_step hst).inRange hmore
  | case4 => cases h

/-- From a state in range a line is scanned, unless a comment on it is nested too deeply. -/
theorem exists_scanLine_of_fits (valid : p.Valid) (range : state.InRange p)
    (fits : p.scanLine state line ≠ .error .tooDeep) :
    ∃ scanned, p.scanLine state line = .ok scanned := by
  cases hrun : p.run state line with
  | error fault =>
    refine absurd ?_ fits
    rw [scanLine, hrun, run_error_of_inRange range hrun]
    rfl
  | ok r => exact (runs_of_run valid hrun).exists_scanLine valid range

/-! ## The loop over a line -/

section

variable {state' entry : ScanState} {rest' : List Char}

/-- By steps, the scan comes from one state in front of a text to another in front of what is
left. -/
inductive Reaches (p : Profile) :
    ScanState → List Char → ScanState → List Char → Prop where
  | refl {state : ScanState} {rest : List Char} : p.Reaches state rest state rest
  | step {state state' : ScanState} {rest rest' : List Char} {st : Step} : rest ≠ [] →
      p.step state rest = .ok st → p.Reaches st.state (rest.drop st.size) state' rest' →
      p.Reaches state rest state' rest'

/-- Wherever the scan comes to on the line before its end, a step can be taken; it takes a byte or
more, and no more than is left of the line. -/
def Advances (p : Profile) (entry : ScanState) (line : List Char) : Prop :=
  ∀ state rest, p.Reaches entry line state rest → rest ≠ [] →
    ∃ st, p.step state rest = .ok st ∧ st.size ≤ rest.length ∧
      0 < Text.byteLength (rest.take st.size)

/-- Steps keep the state in range and the room for its depth. -/
theorem Reaches.room (valid : p.Valid) (h : p.Reaches state rest state' rest')
    (range : state.InRange p) (room : state.depth + Text.byteLength rest < 2 ^ 32) :
    state'.InRange p ∧ state'.depth + Text.byteLength rest' < 2 ^ 32 := by
  induction h with
  | refl => exact ⟨range, room⟩
  | step _ hst _ ih =>
    have hmoves := moves_of_step hst
    exact ih hmoves.inRange (Nat.lt_of_le_of_lt (hmoves.depth_add_drop_le valid) room)

/-- The bytes that a step takes. -/
theorem Moves.bytes_pos (valid : p.Valid) (hne : rest ≠ []) (h : p.Moves rest state st) :
    0 < Text.byteLength (rest.take st.size) := by
  obtain ⟨n, hn⟩ := h.exists_size_eq valid hne
  obtain ⟨c, cs, rfl⟩ := List.exists_cons_of_ne_nil hne
  rw [hn, List.take_succ_cons]
  exact Text.byteLength_pos (List.cons_ne_nil _ _)

/-- From a state in range the loop advances on every line for which the depth has room. -/
theorem advances_of_inRange (valid : p.Valid) (range : entry.InRange p)
    (room : entry.depth + Text.byteLength line < 2 ^ 32) : p.Advances entry line := by
  intro state rest hreach hne
  obtain ⟨range', room'⟩ := hreach.room valid range room
  obtain ⟨st, hmoves⟩ := exists_moves valid range' room'
  exact ⟨st, hmoves.step_eq, hmoves.size_le hne, hmoves.bytes_pos valid hne⟩

end

end Profile

/-! ## Sound states -/

/-- A state that a scan can be in after `size` bytes: its pair is one of the profile's, every open
delimiter took a byte, and only nestable comments are nested. -/
inductive ScanState.Sound (p : Profile) (size : Nat) : ScanState → Prop where
  | normal : ScanState.Sound p size .normal
  | inBlock {pair depth : Nat} {b : BlockPair} : p.blockComments[pair]? = some b → 1 ≤ depth →
      depth ≤ size → (b.nestable = false → depth = 1) → ScanState.Sound p size (.inBlock pair depth)
  | inString {pair : Nat} {escaped : Bool} {s : StringPair} : p.strings[pair]? = some s →
      ScanState.Sound p size (.inString pair escaped)

/-- No escape is waiting for its character. Between lines this is so. -/
def ScanState.Settled : ScanState → Prop
  | .inString _ escaped => escaped = false
  | _ => True

/-- Reading on keeps a state sound. -/
theorem ScanState.Sound.mono {p : Profile} {size size' : Nat} {state : ScanState}
    (h : state.Sound p size) (hle : size ≤ size') : state.Sound p size' := by
  cases h with
  | normal => exact .normal
  | inBlock hb hpos hdepth hone => exact .inBlock hb hpos (Nat.le_trans hdepth hle) hone
  | inString hs => exact .inString hs

/-- A sound state is in range. -/
theorem ScanState.Sound.inRange {p : Profile} {size : Nat} {state : ScanState}
    (h : state.Sound p size) : state.InRange p := by
  cases h with
  | normal => trivial
  | inBlock hb => exact (List.getElem?_eq_some_iff.1 hb).1
  | inString hs => exact (List.getElem?_eq_some_iff.1 hs).1

/-- The depth of a sound state is at most the number of bytes read. -/
theorem ScanState.Sound.depth_le {p : Profile} {size : Nat} {state : ScanState}
    (h : state.Sound p size) : state.depth ≤ size := by
  cases h with
  | normal | inString => exact Nat.zero_le _
  | inBlock _ _ hdepth => exact hdepth

namespace Profile

variable {p : Profile} {state next last : ScanState} {rest line : List Char} {st : Step} {r : Run}
  {unterminated : Bool} {scanned : ScannedLine} {size : Nat} {lines : List (List Char)}
  {scans : List ScannedLine}

/-- A step keeps the state sound: a delimiter that makes a comment deeper takes a byte. -/
theorem Moves.sound (valid : p.Valid) (h : p.Moves rest state st) (hs : state.Sound p size) :
    st.state.Sound p (size + Text.byteLength (rest.take st.size)) := by
  have hdepth : st.state.depth ≤ size + Text.byteLength (rest.take st.size) :=
    Nat.le_trans (h.depth_le valid) (Nat.add_le_add_right hs.depth_le _)
  cases h with
  | code | lineComment | closeBlock | closeString => exact .normal
  | openString hs' | escaped hs' | escape hs' | doubled hs' | inString hs' => exact .inString hs'
  | openBlock hb => exact .inBlock hb (Nat.le_refl 1) hdepth fun _ => rfl
  | nest hb hnest =>
    exact .inBlock hb (Nat.le_add_left 1 _) hdepth fun hflat => nomatch hnest.symm.trans hflat
  | unnest hb _ _ hdeep =>
    cases hs with
    | inBlock hb' _ _ hone =>
      cases hb.symm.trans hb'
      exact .inBlock hb (by omega) hdepth fun hflat => by have := hone hflat; omega
  | inBlock => exact hs.mono (Nat.le_add_right _ _)

/-- A run keeps the state sound. -/
theorem Runs.sound (valid : p.Valid) (h : p.Runs state rest r) (hs : state.Sound p size) :
    r.state.Sound p (size + Text.byteLength rest) := by
  induction h generalizing size with
  | nil => exact hs
  | @step state rest st more _ hmoves _ ih =>
    have := ih (hmoves.sound valid hs)
    rwa [Nat.add_assoc, Text.byteLength_take_add_drop] at this

/-- The end of a line keeps the state sound. -/
theorem Ends.sound (h : p.Ends state next unterminated) (hs : state.Sound p size) :
    next.Sound p size := by
  cases h with
  | normal | givenUp => exact .normal
  | inBlock | multiline => exact hs
  | escaped => cases hs with | inString hs => exact .inString hs

/-- The end of a line leaves no escape waiting. -/
theorem Ends.settled (h : p.Ends state next unterminated) : next.Settled := by
  cases h with
  | normal | inBlock | givenUp => trivial
  | escaped | multiline => rfl

/-- The end of a line that gives up a string leaves nothing open. -/
theorem Ends.eq_normal (h : p.Ends state next true) : next = .normal := by
  cases h with
  | givenUp => rfl

/-- A scan of a line leaves no escape waiting. -/
theorem settled_of_scanLine (valid : p.Valid) (h : p.scanLine state line = .ok scanned) :
    scanned.state.Settled := by
  obtain ⟨r, -, hend, -, -⟩ := (scanLine_eq_ok_iff valid).1 h
  exact hend.settled

/-- A scan of a line leaves a sound state behind. -/
theorem sound_of_scanLine (valid : p.Valid) (h : p.scanLine state line = .ok scanned)
    (hs : state.Sound p size) : scanned.state.Sound p (size + Text.byteLength line) := by
  obtain ⟨r, hr, hend, -, -⟩ := (scanLine_eq_ok_iff valid).1 h
  exact hend.sound (hr.sound valid hs)

/-! ## Lines in order -/

/-- Scans lines in order, each from the state that the one before it left behind; with the state
after the last of them. -/
def scanLines (p : Profile) :
    ScanState → List (List Char) → Except Fault (List ScannedLine × ScanState)
  | state, [] => return ([], state)
  | state, line :: lines => do
    let scanned ← p.scanLine state line
    let (more, last) ← p.scanLines scanned.state lines
    return (scanned :: more, last)

/-- A scan of no lines leaves the state as it is. -/
theorem scanLines_nil_eq_ok_iff :
    p.scanLines state [] = .ok (scans, last) ↔ scans = [] ∧ last = state := by
  constructor
  · intro h; cases h; exact ⟨rfl, rfl⟩
  · rintro ⟨rfl, rfl⟩; rfl

/-- A scan of lines is a scan of the first and a scan of the others. -/
theorem scanLines_cons_eq_ok_iff :
    p.scanLines state (line :: lines) = .ok (scans, last) ↔
      ∃ scanned more, p.scanLine state line = .ok scanned ∧
        p.scanLines scanned.state lines = .ok (more, last) ∧ scans = scanned :: more := by
  simp only [scanLines, bind_eq_ok_iff, Prod.exists]
  constructor
  · rintro ⟨scanned, hline, more, last, hmore, h⟩
    cases h
    exact ⟨scanned, more, hline, hmore, rfl⟩
  · rintro ⟨scanned, more, hline, hmore, rfl⟩
    exact ⟨scanned, hline, more, last, hmore, rfl⟩

/-- Every line has its scan. -/
theorem length_of_scanLines (h : p.scanLines state lines = .ok (scans, last)) :
    scans.length = lines.length := by
  induction lines generalizing state scans with
  | nil =>
    obtain ⟨rfl, -⟩ := scanLines_nil_eq_ok_iff.1 h
    rfl
  | cons line lines ih =>
    obtain ⟨scanned, more, -, hmore, rfl⟩ := scanLines_cons_eq_ok_iff.1 h
    rw [List.length_cons, List.length_cons, ih hmore]

/-- Each line is scanned from the state that the lines before it left behind. -/
theorem scanLine_of_scanLines (h : p.scanLines state lines = .ok (scans, last)) {i : Nat}
    (hline : lines[i]? = some line) :
    ∃ entry scanned, p.scanLines state (lines.take i) = .ok (scans.take i, entry) ∧
      p.scanLine entry line = .ok scanned ∧ scans[i]? = some scanned := by
  induction lines generalizing state scans i with
  | nil => cases hline
  | cons first lines ih =>
    obtain ⟨scanned, more, hfirst, hmore, rfl⟩ := scanLines_cons_eq_ok_iff.1 h
    cases i with
    | zero =>
      cases hline
      exact ⟨state, scanned, rfl, hfirst, rfl⟩
    | succ i =>
      obtain ⟨entry, scanned', hbefore, hscan, hget⟩ := ih hmore hline
      refine ⟨entry, scanned', ?_, hscan, hget⟩
      exact scanLines_cons_eq_ok_iff.2 ⟨scanned, more.take i, hfirst, hbefore, rfl⟩

/-- A scan of lines leaves a sound state behind. -/
theorem sound_of_scanLines (valid : p.Valid) (h : p.scanLines state lines = .ok (scans, last))
    (hs : state.Sound p size) : last.Sound p (size + Text.totalBytes lines) := by
  induction lines generalizing state scans size with
  | nil => rw [(scanLines_nil_eq_ok_iff.1 h).2]; exact hs
  | cons line lines ih =>
    obtain ⟨scanned, more, hline, hmore, -⟩ := scanLines_cons_eq_ok_iff.1 h
    have := ih hmore (sound_of_scanLine valid hline hs)
    rwa [Nat.add_assoc, ← Text.totalBytes_cons] at this

/-- A scan of lines leaves no escape waiting. -/
theorem settled_of_scanLines (valid : p.Valid) (h : p.scanLines state lines = .ok (scans, last))
    (hs : state.Settled) : last.Settled := by
  induction lines generalizing state scans with
  | nil => rw [(scanLines_nil_eq_ok_iff.1 h).2]; exact hs
  | cons line lines ih =>
    obtain ⟨scanned, more, hline, hmore, -⟩ := scanLines_cons_eq_ok_iff.1 h
    exact ih hmore (settled_of_scanLine valid hline)

/-- From a sound state lines can be scanned, as long as fewer than 2³² bytes are read in all. -/
theorem exists_scanLines (valid : p.Valid) (hs : state.Sound p size)
    (short : size + Text.totalBytes lines < 2 ^ 32) :
    ∃ scans last, p.scanLines state lines = .ok (scans, last) := by
  induction lines generalizing state size with
  | nil => exact ⟨[], state, rfl⟩
  | cons line lines ih =>
    rw [Text.totalBytes_cons] at short
    have hdepth := hs.depth_le
    obtain ⟨scanned, hline⟩ : ∃ scanned, p.scanLine state line = .ok scanned :=
      exists_scanLine valid hs.inRange (by omega)
    obtain ⟨more, last, hmore⟩ := ih (sound_of_scanLine valid hline hs) (by omega)
    exact ⟨scanned :: more, last, scanLines_cons_eq_ok_iff.2 ⟨scanned, more, hline, hmore, rfl⟩⟩

/-- A profile with a line comment, a plain and a nestable block comment and a string, for runs on
given lines. -/
def sample : Profile where
  id := "sample"
  name := "Sample"
  lineComments := [['/', '/']]
  blockComments := [⟨['/', '*'], ['*', '/'], false⟩, ⟨['(', '*'], ['*', ')'], true⟩]
  strings := [⟨['"'], ['"'], .char '\\', true⟩]

/-- The sample profile is valid. -/
theorem sample_valid : sample.Valid := by decide

/-- A profile with a nestable comment and a string that may not go on past its line. -/
def singleLine : Profile where
  id := "single-line"
  name := "Single line"
  blockComments := [⟨['(', '*'], ['*', ')'], true⟩]
  strings := [⟨['"'], ['"'], .char '\\', false⟩]

/-- The profile with strings of a single line is valid. -/
theorem singleLine_valid : singleLine.Valid := by decide

end Profile

end SourceTally
