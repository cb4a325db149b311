import SourceTally.Proofs.Scan.Cross

/-!
# Escapes in strings

Where a string ends, said by the runs of one character in the line. An escape character takes the
meaning of what follows it, another escape character included, so a closing delimiter ends the
string when an even number of escape characters stands in front of it (`StringPair.ClosesAt`). A
closing delimiter of one character that is written twice stands for itself, so the string ends with
the first run of that character that has an odd length (`Text.OddRunEnds`).
`Profile.scanLine_escaped` says so of every line.

The invariant is the parity of the run that the text so far ends with (`Text.endsOdd`). For an
escape character it is the flag that the scan carries (`Profile.moves_escaped`). For a delimiter
written twice it is even wherever a step begins (`Profile.crosses_doubled`).
-/

namespace SourceTally

/-! ## Runs of one character -/

namespace Text

variable {c x q : Char} {text : List Char}

/-- The number of `c`s that the text ends with. -/
def endingRun (c : Char) (text : List Char) : Nat :=
  (text.reverse.takeWhile (· == c)).length

/-- The text ends with an odd number of `c`s. -/
def endsOdd (c : Char) (text : List Char) : Bool :=
  endingRun c text % 2 == 1

/-- A run of `q`s, as long as it can be and of odd length, ends at place `i` of the line. -/
def OddRunEnds (q : Char) (line : List Char) (i : Nat) : Prop :=
  (line.drop i).head? ≠ some q ∧ endsOdd q (line.take i) = true

instance (q : Char) (line : List Char) (i : Nat) : Decidable (OddRunEnds q line i) :=
  inferInstanceAs (Decidable (_ ∧ _))

@[simp]
theorem endsOdd_nil : endsOdd c [] = false := rfl

@[simp]
theorem endingRun_concat :
    endingRun c (text ++ [x]) = if x = c then endingRun c text + 1 else 0 := by
  simp only [endingRun, List.reverse_append, List.reverse_singleton, List.singleton_append,
    List.takeWhile_cons, beq_iff_eq]
  split
  · exact List.length_cons
  · rfl

/-- One more `c` changes the parity of the run, and any other character begins a new run. -/
theorem endsOdd_concat : endsOdd c (text ++ [x]) = (x == c && !endsOdd c text) := by
  simp only [endsOdd, endingRun_concat]
  split
  next hx =>
    subst hx
    rcases Nat.mod_two_eq_zero_or_one (endingRun x text) with h | h
    · simp [Nat.add_mod, h]
    · simp [Nat.add_mod, h]
  next hx => simp [hx]

/-- An odd run has a last character, and the run in front of that is even. -/
theorem exists_concat_of_endsOdd (h : endsOdd q text = true) :
    ∃ inside, text = inside ++ [q] ∧ endsOdd q inside = false := by
  rcases List.eq_nil_or_concat text with rfl | ⟨inside, x, rfl⟩
  · cases h
  · rw [List.concat_eq_append, endsOdd_concat, Bool.and_eq_true, beq_iff_eq,
      Bool.not_eq_true'] at h
    exact ⟨inside, by rw [List.concat_eq_append, h.1], h.2⟩

end Text

/-- The closing delimiter stands at place `i` of the line, behind an even number of `c`s. -/
def StringPair.ClosesAt (s : StringPair) (c : Char) (line : List Char) (i : Nat) : Prop :=
  s.closing <+: line.drop i ∧ Text.endsOdd c (line.take i) = false

instance (s : StringPair) (c : Char) (line : List Char) (i : Nat) :
    Decidable (s.ClosesAt c line i) :=
  inferInstanceAs (Decidable (_ ∧ _))

/-- A line that a string goes on through up to its end, whether it is carried to the next line or
given up. -/
def ScannedLine.allString (pair : Nat) (line : List Char) (carried : Bool) : ScannedLine where
  painted := line.map (·, .string)
  state := if carried then .inString pair false else .normal
  unterminatedString := !carried
  closedBlock := false

namespace Profile

open Text

variable {p : Profile} {pair i : Nat} {s : StringPair} {c q x : Char}
  {before after rest line : List Char} {state : ScanState} {waiting : Bool}

/-- A line that is crossed up to its end inside a string. An escape at its end takes the line
break. -/
theorem Crosses.scanLine_of_string (valid : p.Valid) (hs : p.strings[pair]? = some s)
    (h : p.Crosses .string [] state line (.inString pair waiting)) :
    p.scanLine state line = .ok (.allString pair line (waiting || s.multiline)) := by
  cases waiting with
  | true => exact h.scanLine_of_ends valid .escaped
  | false =>
    cases hm : s.multiline with
    | true => exact h.scanLine_of_ends valid (.multiline hs hm)
    | false => exact h.scanLine_of_ends valid (.givenUp hs hm)

/-! ## Escape characters -/

/-- Where the string does not close, one character is taken, and an escape is waiting as long as the
run of escape characters is odd. -/
theorem moves_escaped (hs : p.strings[pair]? = some s) (hc : s.escape = .char c)
    (hopen : ¬ s.ClosesAt c (before ++ x :: rest) before.length) :
    p.Moves (x :: rest) (.inString pair (endsOdd c before))
      ⟨1, .string, .inString pair (endsOdd c (before ++ [x])), false⟩ := by
  rw [StringPair.ClosesAt, List.drop_left, List.take_left] at hopen
  rw [endsOdd_concat]
  cases hodd : endsOdd c before with
  | true =>
    rw [Bool.not_true, Bool.and_false]
    exact .escaped hs
  | false =>
    have hclose : ¬ s.closing <+: x :: rest := fun h => hopen ⟨h, hodd⟩
    rw [Bool.not_false, Bool.and_true]
    by_cases hx : x = c
    · rw [beq_iff_eq.2 hx]
      exact .escape hs hc (congrArg some hx)
    · rw [beq_eq_false_iff_ne.2 hx]
      refine .inString hs ?_ hclose
      intro c' hc' hhead
      rw [hc] at hc'
      cases hc'
      exact hx (Option.some.inj hhead)

/-- Up to where the string closes, the scan crosses the line one character at a time. -/
theorem crosses_escaped {text : List Char} (hs : p.strings[pair]? = some s)
    (hc : s.escape = .char c) (hline : line = before ++ (text ++ after))
    (hopen : ∀ j < (before ++ text).length, ¬ s.ClosesAt c line j) :
    p.Crosses .string after (.inString pair (endsOdd c before)) text
      (.inString pair (endsOdd c (before ++ text))) := by
  induction text generalizing before with
  | nil =>
    rw [List.append_nil]
    exact .nil
  | cons x text ih =>
    have hhere : ¬ s.ClosesAt c (before ++ x :: (text ++ after)) before.length := by
      have := hopen before.length (by simp)
      rwa [hline] at this
    rw [List.append_cons] at hopen ⊢
    refine .cons (moves_escaped hs hc hhere) (ih ?_ hopen)
    rw [hline, List.cons_append, List.append_cons]

/-- A string with an escape character that closes on the line. -/
theorem exists_scanLine_of_closesAt (valid : p.Valid) (hs : p.strings[pair]? = some s)
    (hc : s.escape = .char c) (short : byteLength line < 2 ^ 32) (hcloses : s.ClosesAt c line i)
    (hfirst : ∀ j < i, ¬ s.ClosesAt c line j) :
    ∃ rest, p.scanLine .normal (line.drop (i + s.closing.length)) = .ok rest ∧
      p.scanLine (.inString pair false) line =
        .ok (rest.behind ((line.take (i + s.closing.length)).map (·, .string)) false) := by
  have usable := valid.string hs
  obtain ⟨rest, hrest⟩ :=
    exists_scanLine_of_suffix valid (List.drop_suffix (i + s.closing.length) line) short
  obtain ⟨⟨after, hafter⟩, heven⟩ := hcloses
  have hdrop : line.drop (i + s.closing.length) = after := by
    rw [← List.drop_drop, ← hafter, List.drop_left]
  have htake : line.take (i + s.closing.length) = line.take i ++ s.closing := by
    rw [List.take_add, ← hafter, List.take_left]
  have hline : line.take i ++ (s.closing ++ after) = line := by
    rw [hafter, List.take_append_drop]
  have hcrosses : p.Crosses .string (s.closing ++ after) (.inString pair (endsOdd c []))
      (line.take i) (.inString pair (endsOdd c ([] ++ line.take i))) := by
    refine crosses_escaped hs hc hline.symm fun j hj => hfirst j ?_
    exact Nat.lt_of_lt_of_le hj (List.length_take_le i line)
  rw [List.nil_append, heven, endsOdd_nil] at hcrosses
  have hexit : p.Moves (s.closing ++ after) (.inString pair false)
      ⟨s.closing.length, .string, .normal, false⟩ := by
    refine .closeString hs ?_ ?_ (List.prefix_append _ _)
    · intro c' hc'
      rw [List.head?_append_of_ne_nil _ usable.closing_ne_nil]
      exact usable.escape_ne_head c' hc'
    · intro hdoubled
      cases hc.symm.trans hdoubled.1
  refine ⟨rest, hrest, ?_⟩
  rw [hdrop] at hrest
  rw [htake, ← hcrosses.scanLine_of_exit valid usable.closing_ne_nil hexit hrest, hline]

/-- A string with an escape character that does not close on the line. -/
theorem scanLine_of_not_closesAt (valid : p.Valid) (hs : p.strings[pair]? = some s)
    (hc : s.escape = .char c) (hopen : ∀ i, ¬ s.ClosesAt c line i) :
    p.scanLine (.inString pair false) line =
      .ok (.allString pair line (endsOdd c line || s.multiline)) := by
  have hcrosses : p.Crosses .string [] (.inString pair (endsOdd c [])) line
      (.inString pair (endsOdd c ([] ++ line))) :=
    crosses_escaped hs hc (List.append_nil line).symm fun j _ => hopen j
  exact hcrosses.scanLine_of_string valid hs

/-! ## Delimiters written twice -/

/-- A delimiter of one character that is written twice is taken as a part of the string. -/
theorem moves_doubled (hs : p.strings[pair]? = some s) (hd : s.escape = .doubled)
    (hq : s.closing = [q]) :
    p.Moves (q :: q :: rest) (.inString pair false) ⟨2, .string, .inString pair false, false⟩ := by
  have hprefix : s.closing ++ s.closing <+: q :: q :: rest := by
    rw [hq]
    exact List.prefix_append [q, q] rest
  have hmoves := Moves.doubled hs hd hprefix
  rwa [hq] at hmoves

/-- A character that is not the delimiter is taken as a part of the string. -/
theorem moves_of_ne_closing (hs : p.strings[pair]? = some s) (hd : s.escape = .doubled)
    (hq : s.closing = [q]) (hx : x ≠ q) :
    p.Moves (x :: rest) (.inString pair false) ⟨1, .string, .inString pair false, false⟩ := by
  refine .inString hs ?_ ?_
  · intro c hc
    cases hd.symm.trans hc
  · intro hclose
    rw [hq, List.cons_prefix_cons] at hclose
    exact hx hclose.1.symm

/-- From one place where the run is even to another, the scan crosses the line by single characters
and by delimiters written twice, when no odd run ends between them. -/
theorem crosses_doubled {text : List Char} (hs : p.strings[pair]? = some s)
    (hd : s.escape = .doubled) (hq : s.closing = [q]) (hline : line = before ++ (text ++ after))
    (heven : endsOdd q before = false) (heven' : endsOdd q (before ++ text) = false)
    (hopen : ∀ j ≤ (before ++ text).length, ¬ OddRunEnds q line j) :
    p.Crosses .string after (.inString pair false) text (.inString pair false) := by
  induction hn : text.length using Nat.strong_induction_on generalizing before text with
  | _ n ih =>
    subst hn
    cases text with
    | nil => exact .nil
    | cons x text =>
      by_cases hx : x = q
      · subst hx
        have hodd : endsOdd x (before ++ [x]) = true := by
          rw [endsOdd_concat, heven, beq_self_eq_true]
          rfl
        cases text with
        | nil => cases hodd.symm.trans heven'
        | cons y text =>
          have hline' : line = (before ++ [x]) ++ (y :: (text ++ after)) := by
            rw [hline, List.append_assoc]
            rfl
          -- Another character behind the first delimiter would end an odd run.
          have hy : y = x := by
            by_contra hne
            refine hopen (before ++ [x]).length (by simp) ⟨?_, ?_⟩
            · rw [hline', List.drop_left]
              exact fun h => hne (Option.some.inj h)
            · rw [hline', List.take_left]
              exact hodd
          subst hy
          have heven₂ : endsOdd y (before ++ [y] ++ [y]) = false := by
            rw [endsOdd_concat, hodd, Bool.not_true, Bool.and_false]
          rw [List.append_cons, List.append_cons] at heven' hopen
          refine .step (List.cons_ne_nil y [y]) (moves_doubled hs hd hq)
            (ih text.length (by simp) ?_ heven₂ heven' hopen rfl)
          rw [hline', List.append_cons]
      · have heven₁ : endsOdd q (before ++ [x]) = false := by
          rw [endsOdd_concat, beq_eq_false_iff_ne.2 hx, Bool.false_and]
        rw [List.append_cons] at heven' hopen
        refine .cons (moves_of_ne_closing hs hd hq hx)
          (ih text.length (by simp) ?_ heven₁ heven' hopen rfl)
        rw [hline, List.cons_append, List.append_cons]

/-- A string whose delimiter is written twice, and that closes on the line. -/
theorem exists_scanLine_of_oddRunEnds (valid : p.Valid) (hs : p.strings[pair]? = some s)
    (hd : s.escape = .doubled) (hq : s.closing = [q]) (short : byteLength line < 2 ^ 32)
    (hends : OddRunEnds q line i) (hfirst : ∀ j < i, ¬ OddRunEnds q line j) :
    ∃ rest, p.scanLine .normal (line.drop i) = .ok rest ∧
      p.scanLine (.inString pair false) line =
        .ok (rest.behind ((line.take i).map (·, .string)) false) := by
  obtain ⟨rest, hrest⟩ := exists_scanLine_of_suffix valid (List.drop_suffix i line) short
  obtain ⟨hhead, hodd⟩ := hends
  obtain ⟨inside, htake, heven⟩ := exists_concat_of_endsOdd hodd
  have hline : line = inside ++ ([q] ++ line.drop i) := by
    rw [← List.append_assoc, ← htake, List.take_append_drop]
  have hcrosses : p.Crosses .string ([q] ++ line.drop i) (.inString pair false) inside
      (.inString pair false) := by
    have hlength : (inside ++ [q]).length ≤ i := htake ▸ List.length_take_le i line
    rw [List.length_append, List.length_singleton] at hlength
    refine crosses_doubled hs hd hq hline endsOdd_nil heven fun j hj => hfirst j ?_
    exact Nat.lt_of_lt_of_le (Nat.lt_succ_of_le hj) hlength
  have hexit : p.Moves ([q] ++ line.drop i) (.inString pair false)
      ⟨[q].length, .string, .normal, false⟩ := by
    have hclose : s.closing <+: [q] ++ line.drop i := by
      rw [hq]
      exact List.prefix_append _ _
    have hmoves := Moves.closeString hs ?_ ?_ hclose
    · rwa [hq] at hmoves
    · intro c hc
      cases hd.symm.trans hc
    · intro h
      obtain ⟨more, hmore⟩ := h.2
      rw [hq, List.append_assoc, List.append_cancel_left_eq] at hmore
      rw [← hmore] at hhead
      exact hhead rfl
  have hexit := hcrosses.scanLine_of_exit valid (List.cons_ne_nil q []) hexit hrest
  rw [← hline, ← htake] at hexit
  exact ⟨rest, hrest, hexit⟩

/-- A string whose delimiter is written twice, and that does not close on the line. -/
theorem scanLine_of_not_oddRunEnds (valid : p.Valid) (hs : p.strings[pair]? = some s)
    (hd : s.escape = .doubled) (hq : s.closing = [q]) (hopen : ∀ i, ¬ OddRunEnds q line i) :
    p.scanLine (.inString pair false) line = .ok (.allString pair line s.multiline) := by
  have heven : endsOdd q line = false := by
    have := hopen line.length
    simpa [OddRunEnds] using this
  have hcrosses : p.Crosses .string [] (.inString pair false) line (.inString pair false) :=
    crosses_doubled hs hd hq (List.append_nil line).symm endsOdd_nil heven fun j _ => hopen j
  exact hcrosses.scanLine_of_string valid hs

/-! ## Where a string ends -/

/-- Where a string that can be escaped ends. With an escape character it ends with the first closing
delimiter behind an even number of escape characters. With a closing delimiter of one character that
is written twice, it ends with the first run of that character that has an odd length. What is
behind the end is scanned as if it stood alone. If the string does not end, the whole line is
string, and it is carried to the next line if it may be, or if an escape takes the line break. -/
theorem scanLine_escaped (p : Profile) (pair : Nat) (s : StringPair) (line : List Char)
    (valid : p.Valid) (hs : p.strings[pair]? = some s) (short : byteLength line < 2 ^ 32) :
    ∃ scanned, p.scanLine (.inString pair false) line = .ok scanned ∧
      (∀ c, s.escape = .char c →
        (∀ i, s.ClosesAt c line i → (∀ j < i, ¬ s.ClosesAt c line j) →
          ∃ rest, p.scanLine .normal (line.drop (i + s.closing.length)) = .ok rest ∧
            scanned = rest.behind
              ((line.take (i + s.closing.length)).map (·, .string)) false) ∧
        ((∀ i, ¬ s.ClosesAt c line i) →
          scanned = .allString pair line (endsOdd c line || s.multiline))) ∧
      (∀ q, s.escape = .doubled → s.closing = [q] →
        (∀ i, OddRunEnds q line i → (∀ j < i, ¬ OddRunEnds q line j) →
          ∃ rest, p.scanLine .normal (line.drop i) = .ok rest ∧
            scanned = rest.behind ((line.take i).map (·, .string)) false) ∧
        ((∀ i, ¬ OddRunEnds q line i) → scanned = .allString pair line s.multiline)) := by
  have hrange : ScanState.InRange p (.inString pair false) := (List.getElem?_eq_some_iff.1 hs).1
  obtain ⟨scanned, hscan⟩ : ∃ scanned, p.scanLine (.inString pair false) line = .ok scanned :=
    exists_scanLine valid hrange (by simpa only [ScanState.depth, Nat.zero_add] using short)
  have heq : ∀ {scanned'}, p.scanLine (.inString pair false) line = .ok scanned' →
      scanned = scanned' := fun h => Except.ok.inj (hscan.symm.trans h)
  refine ⟨scanned, hscan, fun c hc => ⟨fun i hcloses hfirst => ?_, fun hopen => ?_⟩,
    fun q hd hq => ⟨fun i hends hfirst => ?_, fun hopen => ?_⟩⟩
  · obtain ⟨rest, hrest, hline⟩ := exists_scanLine_of_closesAt valid hs hc short hcloses hfirst
    exact ⟨rest, hrest, heq hline⟩
  · exact heq (scanLine_of_not_closesAt valid hs hc hopen)
  · obtain ⟨rest, hrest, hline⟩ := exists_scanLine_of_oddRunEnds valid hs hd hq short hends hfirst
    exact ⟨rest, hrest, heq hline⟩
  · exact heq (scanLine_of_not_oddRunEnds valid hs hd hq hopen)

/-- A profile with a string that has an escape character and one whose delimiter is written twice.
Neither may go on past its line. -/
def quoted : Profile where
  id := "quoted"
  name := "Quoted"
  strings := [⟨['"'], ['"'], .char '\\', false⟩, ⟨['|'], ['|'], .doubled, false⟩]

/-- The profile with both kinds of strings is valid. -/
theorem quoted_valid : quoted.Valid := by decide

/-- A delimiter behind one escape does not end a string, and one behind two escapes does. Two
delimiters do not end a string, and three do. An escape takes the line break, and a delimiter that
is written twice leaves it alone. -/
theorem scanLine_escaped_quoted :
    quoted.Valid ∧
      (∃ rest, quoted.scanLine .normal " y".toList = .ok rest ∧
        quoted.scanLine (.inString 0 false) "\\\"\\\\\" y".toList =
          .ok (rest.behind ("\\\"\\\\\"".toList.map (·, .string)) false)) ∧
      (∃ rest, quoted.scanLine .normal " y".toList = .ok rest ∧
        quoted.scanLine (.inString 1 false) "||a||| y".toList =
          .ok (rest.behind ("||a|||".toList.map (·, .string)) false)) ∧
      quoted.scanLine (.inString 0 false) "a\\".toList = .ok (.allString 0 "a\\".toList true) ∧
      quoted.scanLine (.inString 1 false) "a||".toList = .ok (.allString 1 "a||".toList false) := by
  refine ⟨quoted_valid, ?_, ?_, ?_, ?_⟩
  · obtain ⟨scanned, hscan, hchar, -⟩ := scanLine_escaped quoted 0
      ⟨['"'], ['"'], .char '\\', false⟩ "\\\"\\\\\" y".toList quoted_valid rfl (by decide)
    obtain ⟨rest, hrest, rfl⟩ := (hchar '\\' rfl).1 4 (by decide) (by decide)
    exact ⟨rest, hrest, hscan⟩
  · obtain ⟨scanned, hscan, -, hdoubled⟩ := scanLine_escaped quoted 1
      ⟨['|'], ['|'], .doubled, false⟩ "||a||| y".toList quoted_valid rfl (by decide)
    obtain ⟨rest, hrest, rfl⟩ := (hdoubled '|' rfl rfl).1 6 (by decide) (by decide)
    exact ⟨rest, hrest, hscan⟩
  · obtain ⟨scanned, hscan, hchar, -⟩ := scanLine_escaped quoted 0
      ⟨['"'], ['"'], .char '\\', false⟩ "a\\".toList quoted_valid rfl (by decide)
    have hopen := (hchar '\\' rfl).2 fun i hcloses =>
      absurd (List.mem_of_mem_drop (hcloses.1.subset (.head _))) (by decide)
    rw [hscan, hopen]
    rfl
  · obtain ⟨scanned, hscan, -, hdoubled⟩ := scanLine_escaped quoted 1
      ⟨['|'], ['|'], .doubled, false⟩ "a||".toList quoted_valid rfl (by decide)
    have hshort : ∀ i < 3, ¬ OddRunEnds '|' "a||".toList i := by decide
    have hopen := (hdoubled '|' rfl rfl).2 fun i hends => by
      rcases Nat.lt_or_ge i 3 with hi | hi
      · exact hshort i hi hends
      · have hodd := hends.2
        rw [List.take_of_length_le hi] at hodd
        exact absurd hodd (by decide)
    rw [hscan, hopen]

end Profile

end SourceTally
