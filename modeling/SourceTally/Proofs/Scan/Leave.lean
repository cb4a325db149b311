import SourceTally.Proofs.Scan.Run

/-!
# Leaving comments and strings

Whether a scan can get back to where it is outside of everything. The delimiters that close what is
open, one on each line (`Profile.closingLines`), do it in all cases but one. A nestable comment
looks for its opening delimiter first, so if its closing delimiter begins with the opening one, the
closing one is never seen (`BlockPair.Inescapable`), and a scan inside such a comment stays there
whatever follows (`Profile.Traps.stays`). Validity refuses only the pairs whose delimiters are
equal.
-/

namespace SourceTally

/-- The comment is nestable, and wherever its closing delimiter stands the opening one does too. -/
def BlockPair.Inescapable (b : BlockPair) : Prop :=
  b.nestable = true ∧ b.opening <+: b.closing

namespace Profile

variable {p : Profile} {state next last : ScanState} {rest line : List Char} {st : Step} {r : Run}
  {unterminated : Bool} {size pair : Nat} {b : BlockPair} {lines : List (List Char)}
  {scans : List ScannedLine}

/-- The state is inside a comment that cannot be closed. -/
def Traps (p : Profile) : ScanState → Prop
  | .inBlock pair _ => ∃ b, p.blockComments[pair]? = some b ∧ b.Inescapable
  | _ => False

/-- The lines that are meant to close what is open: a closing delimiter for each that is due. -/
def closingLines (p : Profile) : ScanState → List (List Char)
  | .normal => []
  | .inBlock pair depth => List.replicate depth ((p.blockComments[pair]?.map (·.closing)).getD [])
  | .inString pair _ => [(p.strings[pair]?.map (·.closing)).getD []]

/-! ## The trap -/

/-- A step does not lead out of a trap. -/
theorem Moves.traps (h : p.Moves rest state st) (trap : p.Traps state) : p.Traps st.state := by
  cases h with
  | code | lineComment | openBlock | openString => exact trap.elim
  | escaped | escape | doubled | closeString | inString => exact trap.elim
  | nest | inBlock => exact trap
  | unnest hb hopen hclose | closeBlock hb hopen hclose =>
    obtain ⟨b, hb', hnest, hprefix⟩ := trap
    cases hb.symm.trans hb'
    exact absurd ⟨hnest, hprefix.trans hclose⟩ hopen

/-- The end of a line does not lead out of a trap. -/
theorem Ends.traps (h : p.Ends state next unterminated) (trap : p.Traps state) : p.Traps next := by
  cases h with
  | inBlock => exact trap
  | normal | escaped | multiline | givenUp => exact trap.elim

/-- A run does not lead out of a trap. -/
theorem Runs.traps (h : p.Runs state rest r) (trap : p.Traps state) : p.Traps r.state := by
  induction h with
  | nil => exact trap
  | step _ hmoves _ ih => exact ih (hmoves.traps trap)

/-- No lines lead out of a trap. -/
theorem Traps.stays (valid : p.Valid) (trap : p.Traps state)
    (h : p.scanLines state lines = .ok (scans, last)) : p.Traps last := by
  induction lines generalizing state scans with
  | nil => rw [(scanLines_nil_eq_ok_iff.1 h).2]; exact trap
  | cons line lines ih =>
    obtain ⟨scanned, more, hline, hmore, -⟩ := scanLines_cons_eq_ok_iff.1 h
    obtain ⟨r, hr, hend, -, -⟩ := (scanLine_eq_ok_iff valid).1 hline
    exact ih (hend.traps (hr.traps trap)) hmore

/-! ## The way out -/

/-- A line that a single step takes whole is scanned by that step and the end of the line. -/
theorem exists_scanLine_of_moves (valid : p.Valid) (hne : line ≠ [])
    (hmoves : p.Moves line state st) (hsize : st.size = line.length)
    (hend : p.Ends st.state next unterminated) :
    ∃ scanned, p.scanLine state line = .ok scanned ∧ scanned.state = next := by
  have hrest : p.Runs st.state (line.drop st.size) ⟨[], st.state, false⟩ := by
    rw [hsize, List.drop_length]
    exact .nil
  exact ⟨⟨_, next, unterminated, _⟩,
    (scanLine_eq_ok_iff valid).2 ⟨_, .step hne hmoves hrest, hend, rfl, rfl⟩, rfl⟩

/-- The closing delimiter of a string, on a line by itself, closes the string. -/
theorem exists_scanLine_closing_string (valid : p.Valid) {s : StringPair}
    (hs : p.strings[pair]? = some s) :
    ∃ scanned, p.scanLine (.inString pair false) s.closing = .ok scanned ∧
      scanned.state = .normal := by
  have usable := valid.string hs
  have hdouble : ¬ (s.escape = .doubled ∧ s.closing ++ s.closing <+: s.closing) := by
    rintro ⟨-, hprefix⟩
    have hlen := hprefix.length_le
    have hpos := List.length_pos_iff.2 usable.closing_ne_nil
    rw [List.length_append] at hlen
    omega
  exact exists_scanLine_of_moves valid usable.closing_ne_nil
    (.closeString hs usable.escape_ne_head hdouble (List.prefix_refl _)) rfl .normal

/-- The closing delimiter of a comment that is not inescapable, on a line by itself, closes the
comment once. -/
theorem exists_scanLine_closing_block (valid : p.Valid) (hb : p.blockComments[pair]? = some b)
    (free : ¬ b.Inescapable) (depth : Nat) :
    ∃ scanned, p.scanLine (.inBlock pair (depth + 1)) b.closing = .ok scanned ∧
      scanned.state = if depth = 0 then .normal else .inBlock pair depth := by
  have hne := (valid.block hb).closing_ne_nil
  cases depth with
  | zero =>
    exact exists_scanLine_of_moves valid hne
      (.closeBlock hb free (List.prefix_refl _) (Nat.lt_irrefl 1)) rfl .normal
  | succ depth =>
    exact exists_scanLine_of_moves valid hne
      (.unnest hb free (List.prefix_refl _) (by omega)) rfl .inBlock

/-- As many closing delimiters as are due close a comment that is not inescapable. -/
theorem exists_scanLines_closing_block (valid : p.Valid) (hb : p.blockComments[pair]? = some b)
    (free : ¬ b.Inescapable) (depth : Nat) :
    ∃ scans, p.scanLines (.inBlock pair (depth + 1)) (List.replicate (depth + 1) b.closing) =
      .ok (scans, .normal) := by
  induction depth with
  | zero =>
    obtain ⟨scanned, hline, hnormal⟩ := exists_scanLine_closing_block valid hb free 0
    refine ⟨[scanned], scanLines_cons_eq_ok_iff.2 ⟨scanned, [], hline, ?_, rfl⟩⟩
    rw [hnormal]
    rfl
  | succ depth ih =>
    obtain ⟨scanned, hline, hdepth⟩ := exists_scanLine_closing_block valid hb free (depth + 1)
    obtain ⟨more, hmore⟩ := ih
    refine ⟨scanned :: more, scanLines_cons_eq_ok_iff.2 ⟨scanned, more, hline, ?_, rfl⟩⟩
    rw [hdepth]
    exact hmore

/-- The closing delimiters lead out of every state between lines that is no trap. -/
theorem exists_scanLines_closingLines (valid : p.Valid) (sound : state.Sound p size)
    (settled : state.Settled) (free : ¬ p.Traps state) :
    ∃ scans, p.scanLines state (p.closingLines state) = .ok (scans, .normal) := by
  cases sound with
  | normal => exact ⟨[], rfl⟩
  | @inBlock pair depth b hb hpos _ _ =>
    obtain ⟨n, rfl⟩ := Nat.exists_eq_add_of_le' hpos
    have := exists_scanLines_closing_block valid hb (fun trap => free ⟨b, hb, trap⟩) n
    simpa only [closingLines, hb, Option.map_some, Option.getD_some] using this
  | @inString pair escaped s hs =>
    cases settled
    obtain ⟨scanned, hline, hnormal⟩ := exists_scanLine_closing_string valid hs
    refine ⟨[scanned], ?_⟩
    simp only [closingLines, hs, Option.map_some, Option.getD_some]
    refine scanLines_cons_eq_ok_iff.2 ⟨scanned, [], hline, ?_, rfl⟩
    rw [hnormal]
    rfl

/-! ## Which states can be left -/

/-- From a state that a scan can be in between two lines, some lines lead outside of everything
exactly when the state is no trap, and then the closing delimiters of what is open do. -/
theorem exists_scanLines_normal_iff (p : Profile) (lines : List (List Char))
    (scans : List ScannedLine) (state : ScanState) (valid : p.Valid)
    (reached : p.scanLines .normal lines = .ok (scans, state)) :
    ((∃ more scans', p.scanLines state more = .ok (scans', .normal)) ↔ ¬ p.Traps state) ∧
      (¬ p.Traps state →
        ∃ scans', p.scanLines state (p.closingLines state) = .ok (scans', .normal)) := by
  have start : ScanState.Sound p 0 .normal := .normal
  have out := exists_scanLines_closingLines valid (sound_of_scanLines valid reached start)
    (settled_of_scanLines valid reached trivial)
  refine ⟨⟨?_, fun free => ⟨_, out free⟩⟩, out⟩
  rintro ⟨more, scans', h⟩ trap
  exact trap.stays valid h

/-- Two nestable comments, both open, are closed by two closing delimiters. -/
theorem exists_scanLines_normal_nested :
    sample.Valid ∧
      (∃ scans, sample.scanLines .normal ["(* a (*".toList] = .ok (scans, .inBlock 1 2)) ∧
      ∃ scans,
        sample.scanLines (.inBlock 1 2) ["*)".toList, "*)".toList] = .ok (scans, .normal) := by
  have reached : ∃ scans, sample.scanLines .normal ["(* a (*".toList] = .ok (scans, .inBlock 1 2) :=
    ⟨_, by cbv⟩
  refine ⟨sample_valid, reached, ?_⟩
  obtain ⟨scans, h⟩ := reached
  refine (exists_scanLines_normal_iff sample _ scans _ sample_valid h).2 ?_
  rintro ⟨b, hb, -, hprefix⟩
  cases hb
  exact absurd hprefix (by decide)

/-- A profile that is valid although the closing delimiter of its nestable comment begins with the
opening one. -/
def starred : Profile where
  id := "starred"
  name := "Starred"
  blockComments := [⟨['*'], ['*', '/'], true⟩]

/-- Validity does not keep a scan from being trapped: an opening delimiter of `starred` leaves a
comment open that no lines close, its own closing delimiter included. -/
theorem starred_never_closed :
    starred.Valid ∧ (∃ scans, starred.scanLines .normal [['*']] = .ok (scans, .inBlock 0 1)) ∧
      ¬ ∃ more scans, starred.scanLines (.inBlock 0 1) more = .ok (scans, .normal) := by
  have valid : starred.Valid := by decide
  refine ⟨valid, ⟨_, by cbv⟩, ?_⟩
  rintro ⟨more, scans, h⟩
  have trap : starred.Traps (.inBlock 0 1) := ⟨⟨['*'], ['*', '/'], true⟩, rfl, rfl, by decide⟩
  exact trap.stays valid h

end Profile

end SourceTally
