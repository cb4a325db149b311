import SourceTally.Proofs.Scan.Run

/-!
# Where an open construct was opened

When lines leave a comment or a string open, there is one line on which it was opened: the scan,
outside of everything, came to its opening delimiter there and has not been outside since.
`Profile.OpenedOn` says so by the single steps of the scan, so that a line may close a construct and
open the next one. Such a line exists whenever something is open (`Profile.exists_openedOn`), and
there is only one (`Profile.OpenedOn.unique`).
-/

namespace SourceTally

/-- The state right behind the delimiter that opened what is open. -/
def ScanState.opened : ScanState → ScanState
  | .normal => .normal
  | .inBlock pair _ => .inBlock pair 1
  | .inString pair _ => .inString pair false

/-- Only outside of everything is nothing open. -/
theorem ScanState.eq_normal_of_opened {state : ScanState} (h : state.opened = .normal) :
    state = .normal := by
  cases state with
  | normal => rfl
  | inBlock | inString => cases h

/-- Both states are inside a block comment, or both are inside a string. -/
def ScanState.alike (a b : ScanState) : Bool :=
  a.isInBlock && b.isInBlock || a.isInString && b.isInString

namespace Profile

variable {p : Profile} {state state' next last opened entry : ScanState}
  {rest rest' line : List Char} {st : Step} {r : Run} {unterminated : Bool}
  {scanned : ScannedLine} {lines : List (List Char)} {scans : List ScannedLine} {number : Nat}

/-! ## Within a line -/

/-- The scan uses up the text and is never outside of everything; `last` is the state at its
end. -/
inductive StaysInside (p : Profile) : ScanState → List Char → ScanState → Prop where
  | nil {state : ScanState} : state ≠ .normal → p.StaysInside state [] state
  | step {state last : ScanState} {rest : List Char} {st : Step} : state ≠ .normal → rest ≠ [] →
      p.step state rest = .ok st → p.StaysInside st.state (rest.drop st.size) last →
      p.StaysInside state rest last

/-- The line begins and ends inside a comment or string, and the scan is never outside on it. -/
def HoldsLine (p : Profile) (state : ScanState) (line : List Char) (next : ScanState) : Prop :=
  ∃ last unterminated, p.StaysInside state line last ∧
    p.endLine last = .ok (next, unterminated) ∧ next ≠ .normal

/-- On the line the scan is outside of everything in front of a delimiter, the state behind the
delimiter is `opened`, and from there on it is never outside up to the end of the line. -/
def OpensOn (p : Profile) (opened state : ScanState) (line : List Char) (next : ScanState) : Prop :=
  ∃ rest st last unterminated, p.Reaches state line .normal rest ∧ rest ≠ [] ∧
    p.step .normal rest = .ok st ∧ st.state = opened ∧
    p.StaysInside opened (rest.drop st.size) last ∧
    p.endLine last = .ok (next, unterminated) ∧ next ≠ .normal

/-- A step inside a construct that does not leave it goes on with the same construct. -/
theorem Moves.opened_eq (h : p.Moves rest state st) (hin : state ≠ .normal)
    (hnext : st.state ≠ .normal) : st.state.opened = state.opened := by
  cases h with
  | code | lineComment | openBlock | openString => exact absurd rfl hin
  | closeBlock | closeString => exact absurd rfl hnext
  | nest | unnest | inBlock | escaped | escape | doubled | inString => rfl

/-- A step from outside leads right behind an opening delimiter, or stays outside. -/
theorem Moves.opened_of_normal (h : p.Moves rest .normal st) : st.state.opened = st.state := by
  cases h with
  | code | lineComment | openBlock | openString => rfl

/-- The end of a line that leaves something open goes on with the same construct. -/
theorem Ends.opened_eq (h : p.Ends state next unterminated) (hnext : next ≠ .normal) :
    state ≠ .normal ∧ next.opened = state.opened := by
  cases h with
  | normal | givenUp => exact absurd rfl hnext
  | inBlock | escaped | multiline => exact ⟨nofun, rfl⟩

/-- A scan that stays inside begins inside. -/
theorem StaysInside.ne_normal (h : p.StaysInside state rest last) : state ≠ .normal := by
  cases h with
  | nil hin | step hin => exact hin

/-- A scan that stays inside goes on with the same construct. -/
theorem StaysInside.opened_eq (h : p.StaysInside state rest last) : last.opened = state.opened := by
  induction h with
  | nil => rfl
  | step hin _ hst hmore ih =>
    exact ih.trans ((moves_of_step hst).opened_eq hin hmore.ne_normal)

/-- A scan that stays inside comes to no place that is outside. -/
theorem StaysInside.not_reaches (h : p.StaysInside state rest last) :
    ¬ p.Reaches state rest .normal rest' := by
  induction h with
  | nil hin =>
    intro hreach
    cases hreach with
    | refl => exact hin rfl
    | step hne => exact hne rfl
  | step hin _ hst _ ih =>
    intro hreach
    cases hreach with
    | refl => exact hin rfl
    | step _ hst' hreach =>
      cases hst.symm.trans hst'
      exact ih hreach

/-- A scan that stays inside is a run. -/
theorem StaysInside.runs (h : p.StaysInside state rest last) :
    ∃ r, p.Runs state rest r ∧ r.state = last := by
  induction h with
  | nil => exact ⟨_, .nil, rfl⟩
  | step _ hne hst _ ih =>
    obtain ⟨more, hmore, hlast⟩ := ih
    exact ⟨_, .step hne (moves_of_step hst) hmore, hlast⟩

/-- What a scan comes to can be scanned on. -/
theorem Reaches.runs (h : p.Reaches state rest state' rest') (hr : p.Runs state' rest' r) :
    ∃ whole, p.Runs state rest whole ∧ whole.state = r.state := by
  induction h with
  | refl => exact ⟨r, hr, rfl⟩
  | step hne hst _ ih =>
    obtain ⟨more, hmore, hlast⟩ := ih hr
    exact ⟨_, .step hne (moves_of_step hst) hmore, hlast⟩

/-- A run that ends inside a construct has been inside from the beginning, or from an opening
delimiter on. -/
theorem Runs.staysInside_or_opens (h : p.Runs state rest r) (hlast : r.state ≠ .normal) :
    p.StaysInside state rest r.state ∨
      ∃ rest' st, p.Reaches state rest .normal rest' ∧ rest' ≠ [] ∧
        p.step .normal rest' = .ok st ∧ p.StaysInside st.state (rest'.drop st.size) r.state := by
  induction h with
  | nil => exact .inl (.nil hlast)
  | @step state rest st more hne hmoves _ ih =>
    have hst := hmoves.step_eq
    rcases ih hlast with hinside | ⟨rest', st', hreach, hne', hst', hinside⟩
    · by_cases hin : state = .normal
      · subst hin
        exact .inr ⟨rest, st, .refl, hne, hst, hinside⟩
      · exact .inl (.step hin hne hst hinside)
    · exact .inr ⟨rest', st', .step hne hst hreach, hne', hst', hinside⟩

/-- A line that ends inside a construct holds it, or opens it. -/
theorem holdsLine_or_opensOn (valid : p.Valid) (h : p.scanLine state line = .ok scanned)
    (hnext : scanned.state ≠ .normal) :
    p.HoldsLine state line scanned.state ∨
      p.OpensOn scanned.state.opened state line scanned.state := by
  obtain ⟨r, hr, hend, -, -⟩ := (scanLine_eq_ok_iff valid).1 h
  obtain ⟨hlast, hopened⟩ := hend.opened_eq hnext
  have hend' := endLine_eq_ok_iff.2 hend
  rcases hr.staysInside_or_opens hlast with hinside | ⟨rest, st, hreach, hne, hst, hinside⟩
  · exact .inl ⟨_, _, hinside, hend', hnext⟩
  · have hsame : st.state = scanned.state.opened := by
      rw [hopened, hinside.opened_eq, (moves_of_step hst).opened_of_normal]
    exact .inr ⟨rest, st, _, _, hreach, hne, hst, hsame, hsame ▸ hinside, hend', hnext⟩

/-- A run to the state at the end of a line determines the state that the scan leaves behind. -/
theorem scanLine_state_eq (valid : p.Valid) (hr : p.Runs state line r)
    (hend : p.endLine r.state = .ok (next, unterminated))
    (h : p.scanLine state line = .ok scanned) : scanned.state = next := by
  have hscan : p.scanLine state line = .ok ⟨r.painted, next, unterminated, r.closedBlock⟩ :=
    (scanLine_eq_ok_iff valid).2 ⟨r, hr, endLine_eq_ok_iff.1 hend, rfl, rfl⟩
  cases hscan.symm.trans h
  rfl

/-- A scan of a line that holds a construct leaves the state behind that `HoldsLine` says. -/
theorem HoldsLine.state_eq (valid : p.Valid) (h : p.HoldsLine state line next)
    (hscan : p.scanLine state line = .ok scanned) : scanned.state = next := by
  obtain ⟨last, unterminated, hinside, hend, -⟩ := h
  obtain ⟨r, hr, rfl⟩ := hinside.runs
  exact scanLine_state_eq valid hr hend hscan

/-- A scan of a line that opens a construct leaves the state behind that `OpensOn` says. -/
theorem OpensOn.state_eq (valid : p.Valid) (h : p.OpensOn opened state line next)
    (hscan : p.scanLine state line = .ok scanned) : scanned.state = next := by
  obtain ⟨rest, st, last, unterminated, hreach, hne, hst, rfl, hinside, hend, -⟩ := h
  obtain ⟨more, hmore, rfl⟩ := hinside.runs
  obtain ⟨r, hr, hlast⟩ := hreach.runs (.step hne (moves_of_step hst) hmore)
  exact scanLine_state_eq valid hr (by rw [hlast]; exact hend) hscan

/-- No line both holds a construct and opens one. -/
theorem HoldsLine.not_opensOn {next' : ScanState} (h : p.HoldsLine state line next) :
    ¬ p.OpensOn opened state line next' := by
  rintro ⟨_, _, _, _, hreach, -⟩
  obtain ⟨_, _, hinside, -⟩ := h
  exact hinside.not_reaches hreach

/-! ## Over lines -/

/-- Every one of the lines holds what is open before it; `last` is the state after them. -/
inductive Holds (p : Profile) : ScanState → List (List Char) → ScanState → Prop where
  | nil {state : ScanState} : p.Holds state [] state
  | cons {state next last : ScanState} {line : List Char} {lines : List (List Char)} :
      p.HoldsLine state line next → p.Holds next lines last → p.Holds state (line :: lines) last

/-- What is open in `last`, the state after the lines, was opened on the line of the given number,
counted from one; the state before that line was `entry`. -/
inductive OpenedOn (p : Profile) (last : ScanState) :
    ScanState → List (List Char) → Nat → ScanState → Prop where
  /-- The first line opens it, and the other lines hold it. -/
  | here {entry next : ScanState} {line : List Char} {lines : List (List Char)} :
      p.OpensOn last.opened entry line next → p.Holds next lines last →
      p.OpenedOn last entry (line :: lines) 1 entry
  /-- It was opened after the first line. -/
  | later {state entry : ScanState} {line : List Char} {scanned : ScannedLine}
      {lines : List (List Char)} {number : Nat} : p.scanLine state line = .ok scanned →
      p.OpenedOn last scanned.state lines number entry →
      p.OpenedOn last state (line :: lines) (number + 1) entry

/-- Lines that hold a construct hold the same construct throughout. -/
theorem Holds.opened_eq (h : p.Holds state lines last) : last.opened = state.opened := by
  induction h with
  | nil => rfl
  | cons hline _ ih =>
    obtain ⟨_, _, hinside, hend, hnext⟩ := hline
    rw [ih, ((endLine_eq_ok_iff.1 hend).opened_eq hnext).2, hinside.opened_eq]

/-- Lines that leave a construct open have held it from the beginning, or one of them opened it. -/
theorem holds_or_openedOn (valid : p.Valid) (h : p.scanLines state lines = .ok (scans, last))
    (hlast : last ≠ .normal) :
    p.Holds state lines last ∨ ∃ number entry, p.OpenedOn last state lines number entry := by
  induction lines generalizing state scans with
  | nil =>
    obtain ⟨-, rfl⟩ := scanLines_nil_eq_ok_iff.1 h
    exact .inl .nil
  | cons line lines ih =>
    obtain ⟨scanned, more, hline, hmore, -⟩ := scanLines_cons_eq_ok_iff.1 h
    rcases ih hmore with hholds | ⟨number, entry, hopened⟩
    · have hsame := hholds.opened_eq
      have hnext : scanned.state ≠ .normal := fun hnormal =>
        hlast (ScanState.eq_normal_of_opened (by rw [hsame, hnormal]; rfl))
      rcases holdsLine_or_opensOn valid hline hnext with hheld | hopens
      · exact .inl (.cons hheld hholds)
      · exact .inr ⟨1, state, .here (hsame ▸ hopens) hholds⟩
    · exact .inr ⟨number + 1, entry, .later hline hopened⟩

/-- What lines leave open was opened on one of them. -/
theorem exists_openedOn (valid : p.Valid) (h : p.scanLines .normal lines = .ok (scans, last))
    (hlast : last ≠ .normal) : ∃ number entry, p.OpenedOn last .normal lines number entry := by
  rcases holds_or_openedOn valid h hlast with hholds | hopened
  · cases hholds with
    | nil => exact absurd rfl hlast
    | cons hline _ =>
      obtain ⟨_, _, hinside, -⟩ := hline
      exact absurd rfl hinside.ne_normal
  · exact hopened

/-- Lines that hold a construct from the beginning do not open it. -/
theorem Holds.not_openedOn (valid : p.Valid) (h : p.Holds state lines last) :
    ¬ p.OpenedOn last state lines number entry := by
  intro hopened
  induction hopened with
  | here hopens _ =>
    cases h with
    | cons hline _ => exact hline.not_opensOn hopens
  | later hline' _ ih =>
    cases h with
    | cons hline hmore =>
      obtain rfl := hline.state_eq valid hline'
      exact ih hmore

/-- There is only one line on which an open construct was opened. -/
theorem OpenedOn.unique (valid : p.Valid) {entry' : ScanState} {number' : Nat}
    (h : p.OpenedOn last state lines number entry)
    (h' : p.OpenedOn last state lines number' entry') : number = number' ∧ entry = entry' := by
  induction h generalizing number' with
  | here hopens hholds =>
    cases h' with
    | here => exact ⟨rfl, rfl⟩
    | later hline hopened =>
      obtain rfl := hopens.state_eq valid hline
      exact absurd hopened (hholds.not_openedOn valid)
  | later hline hopened ih =>
    cases h' with
    | here hopens hholds =>
      obtain rfl := hopens.state_eq valid hline
      exact absurd hopened (hholds.not_openedOn valid)
    | later hline' hopened' =>
      cases hline.symm.trans hline'
      obtain ⟨rfl, rfl⟩ := ih hopened'
      exact ⟨rfl, rfl⟩

/-- Something that was opened is open. -/
theorem OpenedOn.ne_normal (h : p.OpenedOn last state lines number entry) : last ≠ .normal := by
  induction h with
  | later _ _ ih => exact ih
  | here hopens hholds =>
    obtain ⟨_, _, _, _, -, -, -, -, -, -, hnext⟩ := hopens
    have hsame := hholds.opened_eq
    rintro rfl
    exact hnext (ScanState.eq_normal_of_opened hsame.symm)

/-- The line on which an open construct was opened is one of the lines, and opens the construct. -/
theorem OpenedOn.exists_line (h : p.OpenedOn last state lines number entry) :
    ∃ k line next, number = k + 1 ∧ lines[k]? = some line ∧
      p.OpensOn last.opened entry line next := by
  induction h with
  | here hopens _ => exact ⟨0, _, _, rfl, rfl, hopens⟩
  | later _ _ ih =>
    obtain ⟨k, line, next, rfl, hline, hopens⟩ := ih
    exact ⟨k + 1, line, next, rfl, hline, hopens⟩

/-- What a scan comes to is an end of the text. -/
theorem Reaches.suffix (h : p.Reaches state rest state' rest') : rest' <:+ rest := by
  induction h with
  | refl => exact List.suffix_refl _
  | step _ _ _ ih => exact ih.trans (List.drop_suffix _ _)

/-- The opening delimiter of a comment that a line opens stands on the line. -/
theorem OpensOn.infix_of_inBlock {pair : Nat} (h : p.OpensOn (.inBlock pair 1) state line next) :
    ∃ b, p.blockComments[pair]? = some b ∧ b.opening <:+: line := by
  obtain ⟨rest, st, _, _, hreach, -, hst, hopened, -⟩ := h
  cases moves_of_step hst with
  | code | lineComment | openString => cases hopened
  | openBlock hb ho =>
    cases hopened
    exact ⟨_, hb, (declares_of_opening? ho).2.isInfix.trans hreach.suffix.isInfix⟩

end Profile

end SourceTally
