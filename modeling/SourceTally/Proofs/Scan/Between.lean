import SourceTally.Proofs.Scan.Open

/-!
# States between lines

What a scan can carry from one line to the next (`ScanState.Between`). Beside what holds of every
sound state, no escape is waiting, and a string that may not go on past its line is open only behind
a line that ends with its escape character: the escape took the line break
(`Profile.Runs.endsInEscape`).

As long as the depth has room, every step on a line advances (`Profile.Advances`), so the loop comes
to the end of the line (`Profile.reaches_of_scanLine`). `Profile.exists_scanLines_between` puts the
two together for the lines of a file.
-/

namespace SourceTally

/-- A state that a scan can leave behind after `line`, when `size` bytes are read in all. -/
inductive ScanState.Between (p : Profile) (size : Nat) (line : List Char) : ScanState → Prop where
  | normal : ScanState.Between p size line .normal
  | inBlock {pair depth : Nat} {b : BlockPair} : p.blockComments[pair]? = some b → 1 ≤ depth →
      depth ≤ size → (b.nestable = false → depth = 1) →
      ScanState.Between p size line (.inBlock pair depth)
  | inString {pair : Nat} {s : StringPair} : p.strings[pair]? = some s →
      (s.multiline = false → ∃ c, s.escape = .char c ∧ line.getLast? = some c) →
      ScanState.Between p size line (.inString pair false)

namespace Profile

variable {p : Profile} {state state' next entry : ScanState} {rest rest' line : List Char}
  {st : Step} {r : Run} {unterminated : Bool} {scanned : ScannedLine} {size pair : Nat}

/-! ## Escapes at the end of a line -/

/-- The text ends with the escape character of the string that `pair` names. -/
def EndsInEscape (p : Profile) (text : List Char) (pair : Nat) : Prop :=
  ∃ s c, p.strings[pair]? = some s ∧ s.escape = .char c ∧ text.getLast? = some c

/-- A step that leaves an escape waiting took the escape character, and nothing else. -/
theorem Moves.escape_of_waiting (h : p.Moves rest state st) (hst : st.state = .inString pair true) :
    st.size = 1 ∧ ∃ s c, p.strings[pair]? = some s ∧ s.escape = .char c ∧ rest.head? = some c := by
  cases h with
  | code | lineComment | closeBlock | closeString => cases hst
  | openBlock | nest | unnest | inBlock => cases hst
  | openString | escaped | doubled | inString => cases hst
  | escape hs hc hhead =>
    cases hst
    exact ⟨rfl, _, _, hs, hc, hhead⟩

/-- A run that leaves an escape waiting ends with the escape character, unless it took nothing and
the escape was waiting before. -/
theorem Runs.endsInEscape (h : p.Runs state rest r) (hnew : state.Settled ∨ rest ≠ [])
    (hr : r.state = .inString pair true) : p.EndsInEscape rest pair := by
  induction h with
  | nil =>
    subst hr
    exact hnew.elim nofun (absurd rfl)
  | @step state rest st more hne hmoves hmore ih =>
    by_cases hend : rest.drop st.size = []
    · -- The last step: the state behind it is the one that has the escape waiting.
      rw [hend] at hmore
      obtain ⟨hsize, s, c, hs, hc, hhead⟩ :=
        hmoves.escape_of_waiting (hmore.state_of_nil.symm.trans hr)
      obtain ⟨a, as, rfl⟩ := List.exists_cons_of_ne_nil hne
      rw [hsize, List.drop_one, List.tail_cons] at hend
      subst hend
      exact ⟨s, c, hs, hc, hhead⟩
    · obtain ⟨s, c, hs, hc, hlast⟩ := ih (.inr hend) hr
      refine ⟨s, c, hs, hc, ?_⟩
      rw [List.getLast?_drop] at hlast
      split at hlast
      · cases hlast
      · exact hlast

/-- The end of a line leaves a state behind that can be between lines, when an escape is waiting
only behind the escape character. -/
theorem Ends.between (h : p.Ends state next unterminated) (sound : state.Sound p size)
    (hescape : ∀ pair, state = .inString pair true → p.EndsInEscape line pair) :
    next.Between p size line := by
  cases h with
  | normal | givenUp => exact .normal
  | inBlock =>
    cases sound with
    | inBlock hb hpos hdepth hone => exact .inBlock hb hpos hdepth hone
  | escaped =>
    obtain ⟨s, c, hs, hc, hlast⟩ := hescape _ rfl
    exact .inString hs fun _ => ⟨c, hc, hlast⟩
  | multiline hs hm => exact .inString hs fun hsingle => nomatch hm.symm.trans hsingle

/-- A scan of a line leaves a state behind that can be between lines. -/
theorem between_of_scanLine (valid : p.Valid) (h : p.scanLine entry line = .ok scanned)
    (sound : entry.Sound p size) (settled : entry.Settled) :
    scanned.state.Between p (size + Text.byteLength line) line := by
  obtain ⟨r, hr, hend, -, -⟩ := (scanLine_eq_ok_iff valid).1 h
  exact hend.between (hr.sound valid sound) fun _ hwait => hr.endsInEscape (.inl settled) hwait

/-! ## The loop over a line -/

/-- A run comes to the end of its text. -/
theorem Runs.reaches (h : p.Runs state rest r) : p.Reaches state rest r.state [] := by
  induction h with
  | nil => exact .refl
  | step hne hmoves _ ih => exact .step hne hmoves.step_eq ih

/-- The loop comes to the end of a scanned line, and the end of the line does the rest. -/
theorem reaches_of_scanLine (valid : p.Valid) (h : p.scanLine entry line = .ok scanned) :
    ∃ state, p.Reaches entry line state [] ∧
      p.endLine state = .ok (scanned.state, scanned.unterminatedString) := by
  obtain ⟨r, hr, hend, -, -⟩ := (scanLine_eq_ok_iff valid).1 h
  exact ⟨r.state, hr.reaches, endLine_eq_ok_iff.2 hend⟩

/-! ## Lines in order -/

/-- Every list of lines of fewer than 2³² bytes is scanned without a fault. On each line the loop
advances up to the end of the line, and the state that it leaves behind is one that can be between
lines. -/
theorem exists_scanLines_between (p : Profile) (lines : List (List Char)) (valid : p.Valid)
    (short : Text.totalBytes lines < 2 ^ 32) :
    ∃ scans last, p.scanLines .normal lines = .ok (scans, last) ∧
      ∀ i line, lines[i]? = some line → ∃ entry scanned,
        p.scanLines .normal (lines.take i) = .ok (scans.take i, entry) ∧
        p.scanLine entry line = .ok scanned ∧ scans[i]? = some scanned ∧
        p.Advances entry line ∧
        (∃ state, p.Reaches entry line state [] ∧
          p.endLine state = .ok (scanned.state, scanned.unterminatedString)) ∧
        scanned.state.Between p (Text.totalBytes (lines.take (i + 1))) line := by
  have start : ScanState.Sound p 0 .normal := .normal
  obtain ⟨scans, last, hscans⟩ := exists_scanLines valid start (by rwa [Nat.zero_add])
  refine ⟨scans, last, hscans, fun i line hline => ?_⟩
  obtain ⟨entry, scanned, hbefore, hscan, hget⟩ := scanLine_of_scanLines hscans hline
  have sound := sound_of_scanLines valid hbefore start
  have settled := settled_of_scanLines valid hbefore trivial
  have hbytes := Text.totalBytes_take_succ hline
  have hwhole := Text.totalBytes_take_le lines (i + 1)
  have hdepth := sound.depth_le
  refine ⟨entry, scanned, hbefore, hscan, hget, ?_, reaches_of_scanLine valid hscan, ?_⟩
  · exact advances_of_inRange valid sound.inRange (by omega)
  · rw [hbytes, ← Nat.zero_add (Text.totalBytes (lines.take i))]
    exact between_of_scanLine valid hscan sound settled

/-- An escape at its end takes a string past the first line, and the second line closes the string
and leaves two comments open. -/
theorem exists_scanLines_between_escape :
    singleLine.Valid ∧ ∃ (scans : List ScannedLine) (last : ScanState) (first second : ScannedLine),
      singleLine.scanLines .normal ["\"a\\".toList, "\" (* b (*".toList] = .ok (scans, last) ∧
      scans[0]? = some first ∧ scans[1]? = some second ∧
      first.state = .inString 0 false ∧ second.state = .inBlock 0 2 ∧
      first.state.Between singleLine 3 "\"a\\".toList ∧
      second.state.Between singleLine 12 "\" (* b (*".toList := by
  obtain ⟨scans, last, hscans, hlines⟩ := exists_scanLines_between singleLine
    ["\"a\\".toList, "\" (* b (*".toList] singleLine_valid (by decide)
  obtain ⟨_, first, -, -, hfirst, -, -, hbetween⟩ := hlines 0 _ rfl
  obtain ⟨_, second, -, -, hsecond, -, -, hbetween'⟩ := hlines 1 _ rfl
  have hstates : (singleLine.scanLines .normal ["\"a\\".toList, "\" (* b (*".toList]).map
      (·.1.map (·.state)) = .ok [.inString 0 false, .inBlock 0 2] := by cbv
  rw [hscans] at hstates
  have hstates : scans.map (·.state) = [.inString 0 false, .inBlock 0 2] := Except.ok.inj hstates
  have hfirst' : first.state = .inString 0 false := by
    have := congrArg (·[0]?) hstates
    simpa [hfirst] using this
  have hsecond' : second.state = .inBlock 0 2 := by
    have := congrArg (·[1]?) hstates
    simpa [hsecond] using this
  exact ⟨singleLine_valid, scans, last, first, second, hscans, hfirst, hsecond, hfirst', hsecond',
    hbetween, hbetween'⟩

end Profile

end SourceTally
