import SourceTally.File.Basic
import SourceTally.Proofs.Scan.Run

/-!
# Ends of lines

Which characters end the lines of a file has no influence on its report
(`Profile.classifyFile_line_ends`): a line feed and a carriage return with a line feed are the same,
and a last line that ends is the same as one that does not. A carriage return that stayed on its line
would show: it would take the place of the line break behind an escape, and it would make an empty
line one with a character.

`Text.Lines` says what the lines of a text are, one line after the other, and `Text.lines` finds them
(`Text.lines_eq_iff`). What a change of the ends does to a text is then a short induction over its
lines.
-/

namespace SourceTally

namespace Text

variable {text line : List Char} {ls : List (List Char)}

/-! ## The lines of a text -/

/-- The text is made up of the lines: each ends with a line feed, but for a last one that has no end
and is not empty. -/
inductive Lines : List Char → List (List Char) → Prop where
  | nil : Lines [] []
  | last {line : List Char} : line ≠ [] → '\n' ∉ line → Lines line [line]
  | ended {line rest : List Char} {ls : List (List Char)} : '\n' ∉ line → Lines rest ls →
      Lines (line ++ '\n' :: rest) (dropReturn line :: ls)

/-- What stands in front of the first line feed, and what stands behind it. -/
theorem span_newline (h : '\n' ∉ line) (rest : List Char) :
    (line ++ '\n' :: rest).takeWhile (· ≠ '\n') = line ∧
      (line ++ '\n' :: rest).dropWhile (· ≠ '\n') = '\n' :: rest := by
  have hline : ∀ c ∈ line, decide (c ≠ '\n') = true := by
    intro c hc
    exact decide_eq_true fun heq => h (heq ▸ hc)
  rw [List.takeWhile_append_of_pos hline, List.dropWhile_append_of_pos hline]
  simp

/-- The lines that are found are those that make up the text. -/
theorem Lines.lines_eq (h : Lines text ls) : lines text = ls := by
  induction h with
  | nil => rw [lines]
  | @last line hne hline =>
    obtain ⟨c, cs, rfl⟩ := List.exists_cons_of_ne_nil hne
    have hdrop : (c :: cs).dropWhile (· ≠ '\n') = [] := by
      refine List.dropWhile_eq_nil_iff.2 fun a ha => ?_
      exact decide_eq_true fun heq => hline (heq ▸ ha)
    rw [lines]
    split
    · rfl
    next hsome => cases hdrop.symm.trans hsome
  | @ended line rest ls hline _ ih =>
    obtain ⟨htake, hdrop⟩ := span_newline hline rest
    obtain ⟨c, cs, hcs⟩ : ∃ c cs, line ++ '\n' :: rest = c :: cs :=
      List.exists_cons_of_ne_nil (by simp)
    rw [hcs] at htake hdrop ⊢
    rw [lines]
    split
    next hnone => cases hdrop.symm.trans hnone
    next hsome =>
      cases hdrop.symm.trans hsome
      rw [htake, ih]

/-- Every text is made up of lines. -/
theorem exists_lines (text : List Char) : ∃ ls, Lines text ls := by
  by_cases hmem : '\n' ∈ text
  · obtain ⟨line, rest, rfl, hline⟩ := List.eq_append_cons_of_mem hmem
    obtain ⟨ls, hls⟩ := exists_lines rest
    exact ⟨_, .ended hline hls⟩
  · by_cases hne : text = []
    · exact ⟨[], hne ▸ .nil⟩
    · exact ⟨[text], .last hne hmem⟩
termination_by text.length
decreasing_by
  subst_vars
  simp only [List.length_append, List.length_cons]
  omega

theorem lines_eq_iff : lines text = ls ↔ Lines text ls := by
  refine ⟨fun h => ?_, Lines.lines_eq⟩
  obtain ⟨ls', hls'⟩ := exists_lines text
  rwa [← h, hls'.lines_eq]

/-! ## Other ends -/

/-- The text with a carriage return in front of every line feed. -/
def withReturns (text : List Char) : List Char :=
  text.flatMap fun c => if c = '\n' then ['\r', '\n'] else [c]

/-- A text without a line feed stays as it is. -/
theorem withReturns_of_notMem (h : '\n' ∉ line) : withReturns line = line := by
  induction line with
  | nil => rfl
  | cons c cs ih =>
    rw [List.mem_cons, not_or] at h
    rw [withReturns, List.flatMap_cons, if_neg (Ne.symm h.1), List.singleton_append, ← withReturns,
      ih h.2]

/-- The first line gets a carriage return at its end. -/
theorem withReturns_ended (h : '\n' ∉ line) (rest : List Char) :
    withReturns (line ++ '\n' :: rest) = (line ++ ['\r']) ++ '\n' :: withReturns rest := by
  rw [withReturns, List.flatMap_append, List.flatMap_cons, if_pos rfl, ← withReturns, ← withReturns,
    withReturns_of_notMem h, List.append_assoc]
  rfl

theorem dropReturn_of_getLast? (h : line.getLast? ≠ some '\r') : dropReturn line = line :=
  if_neg h

/-- One carriage return is dropped. -/
theorem dropReturn_concat (line : List Char) : dropReturn (line ++ ['\r']) = line := by
  rw [dropReturn, if_pos List.getLast?_concat, List.dropLast_concat]

/-- The lines stay the same when each of their ends gets a carriage return. -/
theorem Lines.withReturns (h : Lines text ls) (hreturn : '\r' ∉ text) :
    Lines (withReturns text) ls := by
  induction h with
  | nil => exact .nil
  | last hne hline =>
    rw [withReturns_of_notMem hline]
    exact .last hne hline
  | @ended line rest ls hline _ ih =>
    rw [List.mem_append, List.mem_cons, not_or, not_or] at hreturn
    obtain ⟨hnone, -, hrest⟩ := hreturn
    have hplain : dropReturn line = line :=
      dropReturn_of_getLast? fun hlast => hnone (List.mem_of_getLast? hlast)
    rw [withReturns_ended hline, hplain]
    nth_rewrite 2 [← dropReturn_concat line]
    refine .ended ?_ (ih hrest)
    simpa using hline

/-- The lines stay the same when the last one gets an end, with or without a carriage return. -/
theorem Lines.withEnd (h : Lines text ls) (hne : text ≠ []) (hfeed : text.getLast? ≠ some '\n')
    (hreturn : text.getLast? ≠ some '\r') :
    Lines (text ++ ['\n']) ls ∧ Lines (text ++ ['\r', '\n']) ls := by
  induction h with
  | nil => exact absurd rfl hne
  | @last line _ hline =>
    have hone := Lines.ended hline .nil
    have hline' : '\n' ∉ line ++ ['\r'] := by simpa using hline
    have htwo := Lines.ended hline' .nil
    rw [dropReturn_of_getLast? hreturn] at hone
    rw [dropReturn_concat, List.append_assoc] at htwo
    exact ⟨hone, htwo⟩
  | @ended line rest ls hline _ ih =>
    have hrest : rest ≠ [] := by
      rintro rfl
      exact hfeed List.getLast?_concat
    have hlast : (line ++ '\n' :: rest).getLast? = rest.getLast? := by
      rw [List.getLast?_append_cons, List.getLast?_cons_of_ne_nil hrest]
    rw [hlast] at hfeed hreturn
    obtain ⟨hone, htwo⟩ := ih hrest hfeed hreturn
    rw [List.append_assoc, List.append_assoc]
    exact ⟨.ended hline hone, .ended hline htwo⟩

end Text

namespace Profile

/-- The ends of lines do not matter. A text without carriage returns has the report that it has with
one in front of every line feed. A text that is not empty and whose last line has no end has the
report that it has with an end of either kind. -/
theorem classifyFile_line_ends (p : Profile) (policy : HeaderPolicy) :
    (∀ text, '\r' ∉ text →
      p.classifyFile policy (Text.withReturns text) = p.classifyFile policy text) ∧
    ∀ text, text ≠ [] → text.getLast? ≠ some '\n' → text.getLast? ≠ some '\r' →
      p.classifyFile policy (text ++ ['\n']) = p.classifyFile policy text ∧
      p.classifyFile policy (text ++ ['\r', '\n']) = p.classifyFile policy text := by
  unfold classifyFile
  refine ⟨fun text hreturn => ?_, fun text hne hfeed hreturn => ?_⟩
  · have hlines : Text.Lines text (Text.lines text) := Text.lines_eq_iff.1 rfl
    rw [Text.lines_eq_iff.2 (hlines.withReturns hreturn)]
  · have hlines : Text.Lines text (Text.lines text) := Text.lines_eq_iff.1 rfl
    obtain ⟨hone, htwo⟩ := hlines.withEnd hne hfeed hreturn
    rw [Text.lines_eq_iff.2 hone, Text.lines_eq_iff.2 htwo]
    exact ⟨rfl, rfl⟩

/-- An escape in front of a line break, an empty line and a comment that is left open, with line
feeds, with carriage returns and with an end of either kind at the end. -/
theorem classifyFile_line_ends_escape :
    singleLine.classifyFile {} "\"a\\\nb\"\n\n(* c".toList =
        .ok ⟨{ blank := 1, code := 2, comment := 1, total := 4 }, [.unterminatedBlock 4]⟩ ∧
      singleLine.classifyFile {} "\"a\\\r\nb\"\r\n\r\n(* c".toList =
        singleLine.classifyFile {} "\"a\\\nb\"\n\n(* c".toList ∧
      singleLine.classifyFile {} "\"a\\\nb\"\n\n(* c\n".toList =
        singleLine.classifyFile {} "\"a\\\nb\"\n\n(* c".toList ∧
      singleLine.classifyFile {} "\"a\\\nb\"\n\n(* c\r\n".toList =
        singleLine.classifyFile {} "\"a\\\nb\"\n\n(* c".toList := by
  obtain ⟨hreturns, hends⟩ := classifyFile_line_ends singleLine {}
  obtain ⟨hone, htwo⟩ :=
    hends "\"a\\\nb\"\n\n(* c".toList (by decide) (by decide) (by decide)
  exact ⟨by cbv, hreturns "\"a\\\nb\"\n\n(* c".toList (by decide), hone, htwo⟩

end Profile

end SourceTally
