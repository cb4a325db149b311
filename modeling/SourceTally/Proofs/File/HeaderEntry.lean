import SourceTally.Proofs.File.Header
import SourceTally.Proofs.Scan.Open

/-!
# What the first header line begins inside of

A header of style `block` is one block comment, but the search for it looks only at what its first
line begins with, and that can be a comment that was open before the line. So the scan is outside of
everything in front of the first header line except when a line that was passed over had opened a
comment that is still open: a first line that begins with `#!`, or a blank line, where a delimiter
of white space opens a comment (`Progress.first_header_line_entry_iff`).
-/

namespace SourceTally

/-- The comment that is open in `state`, the state in front of line `i`, was opened on a line that
the search for the header passes over. -/
def Profile.OpenedInPassing (p : Profile) (policy : HeaderPolicy) (lines : List (List Char))
    (i : Nat) (state : ScanState) : Prop :=
  ∃ k entry line, p.OpenedOn state .normal (lines.take i) (k + 1) entry ∧ lines[k]? = some line ∧
    ((k = 0 ∧ policy.allowShebang = true ∧ ['#', '!'] <+: line) ∨
      (policy.allowLeadingBlankLines = true ∧ Text.isBlank line = true ∧
        ∃ b ∈ p.blockComments, Text.isBlank b.opening = true))

/-- A part of a blank text is blank. -/
theorem Text.isBlank_of_infix {a b : List Char} (h : a <:+: b) (hb : isBlank b = true) :
    isBlank a = true :=
  List.all_eq_true.2 fun c hc => List.all_eq_true.1 hb c (h.subset hc)

namespace HeaderPolicy

/-- The first line of a header is the first line that is not passed over. -/
theorem HeaderLine.isFirst {policy : HeaderPolicy} {lines : List (List Char)}
    {scans : List ScannedLine} {i : Nat} (h : policy.HeaderLine lines scans i)
    (first : ∀ j < i, ¬ policy.HeaderLine lines scans j) :
    policy.IsFirst 0 lines scans i ∧ ∃ line, scans[i]? = some line ∧ policy.BeginsAt line := by
  obtain ⟨henabled, f, line, hfirst, hline, hbegins, hle, hcovers⟩ := h
  have hself : policy.Covers scans f f :=
    ⟨Nat.le_refl f, ⟨line, hline, hbegins.1⟩, fun j _ hj hjf => absurd hj (Nat.not_le.2 hjf)⟩
  have hnot : ¬ f < i := fun hlt => first f hlt ⟨henabled, f, line, hfirst, hline, hbegins, hself⟩
  obtain rfl : f = i := by omega
  exact ⟨hfirst, line, hline, hbegins⟩

end HeaderPolicy

namespace Profile

variable {p : Profile} {policy : HeaderPolicy}

/-- What is open in front of a line before which all lines are passed over was opened in passing,
unless it is a string. -/
theorem openedInPassing_of_isFirst (valid : p.Valid) {lines : List (List Char)}
    {scans : List ScannedLine} {last : ScanState} {i pair depth : Nat}
    (hscans : p.scanLines .normal lines = .ok (scans, last))
    (hbefore : p.scanLines .normal (lines.take i) = .ok (scans.take i, .inBlock pair depth))
    (hfirst : policy.IsFirst 0 lines scans i) :
    p.OpenedInPassing policy lines i (.inBlock pair depth) := by
  obtain ⟨number, entry, hopened⟩ := exists_openedOn valid hbefore nofun
  obtain ⟨k, line, next, rfl, hline, hopens⟩ := hopened.exists_line
  have hk : k < i := by
    have hlt := (List.getElem?_eq_some_iff.1 hline).1
    rw [List.length_take] at hlt
    omega
  rw [List.getElem?_take_of_lt hk] at hline
  obtain ⟨_, scanned, -, hscan, hget⟩ := scanLine_of_scanLines hscans hline
  refine ⟨k, entry, line, hopened, hline, ?_⟩
  rcases hfirst.2 k line scanned hk hline hget with ⟨hcategory, hallow⟩ | ⟨hnumber, hallow, hprefix⟩
  · obtain ⟨b, hb, hinfix⟩ := hopens.infix_of_inBlock
    have hblank := (category_eq_blank_iff_isBlank valid hscan).1 hcategory
    exact .inr ⟨hallow, hblank, b, List.mem_of_getElem? hb, Text.isBlank_of_infix hinfix hblank⟩
  · exact .inl ⟨by omega, hallow, hprefix⟩

end Profile

namespace Progress

/-- The state in front of the first header line, for every file and every policy. It is outside of
everything or inside a block comment, and it is outside exactly when no line that was passed over
opened a comment that is still open. -/
theorem first_header_line_entry_iff (p : Profile) (policy : HeaderPolicy)
    (lines : List (List Char)) (results : List LineResult) (progress : Progress) (i : Nat)
    (valid : p.Valid)
    (pushed : pushAll p policy (.start policy) lines = .ok (results, progress))
    (header : ∃ result, results[i]? = some result ∧ result.category = .header)
    (first : ∀ j result, j < i → results[j]? = some result → result.category ≠ .header) :
    ∃ scans state, p.scanLines .normal (lines.take i) = .ok (scans, state) ∧
      (state = .normal ∨ state.isInBlock = true) ∧
      (state = .normal ↔ ¬ p.OpenedInPassing policy lines i state) := by
  obtain ⟨scans, hpushes⟩ := pushAll_eq_ok_iff.1 pushed
  have hiff := hpushes.headerAt_iff valid
  have hnot : ∀ j < i, ¬ policy.HeaderLine lines scans j := fun j hj hheader => by
    obtain ⟨result, hresult, hcategory⟩ := (hiff j).2 hheader
    exact first j result hj hresult hcategory
  obtain ⟨hfirst, top, htop, hbegins⟩ := ((hiff i).1 header).isFirst hnot
  obtain ⟨line, -, hline, -⟩ := hfirst.1
  obtain ⟨state, scanned, hbefore, hscan, hget⟩ :=
    Profile.scanLine_of_scanLines hpushes.scanLines hline
  cases htop.symm.trans hget
  refine ⟨_, state, hbefore, ?_⟩
  cases state with
  | normal => exact ⟨.inl rfl, iff_of_true rfl fun ⟨_, _, _, hopened, _⟩ => hopened.ne_normal rfl⟩
  | inString pair escaped =>
    exact absurd hbegins.1 (Profile.category_ne_comment_of_inString valid hscan)
  | inBlock pair depth =>
    have hpassing := Profile.openedInPassing_of_isFirst valid hpushes.scanLines hbefore hfirst
    exact ⟨.inr rfl, iff_of_false nofun fun hnone => hnone hpassing⟩

/-- Behind a first line that begins with `#!` and a blank line, neither of which opens a comment,
the header begins outside of everything. -/
theorem first_header_line_entry_after_shebang :
    ∃ results progress, pushAll .sample {} (.start {})
        ["#!x".toList, [], "/* a".toList, "*/".toList] = .ok (results, progress) ∧
      results.map (·.category) = [.code, .blank, .header, .header] ∧
      ∃ scans state, Profile.sample.scanLines .normal ["#!x".toList, []] = .ok (scans, state) ∧
        (state = .normal ↔ ¬ Profile.sample.OpenedInPassing {}
          ["#!x".toList, [], "/* a".toList, "*/".toList] 2 state) := by
  have pushed : pushAll .sample {} (.start {})
      ["#!x".toList, [], "/* a".toList, "*/".toList] =
      .ok ([⟨1, .code, none⟩, ⟨2, .blank, none⟩, ⟨3, .header, none⟩, ⟨4, .header, none⟩],
        { lines := 4, state := .normal, phase := .done,
          counts := { blank := 1, code := 1, header := 2, total := 4 } }) := by cbv
  refine ⟨_, _, pushed, rfl, ?_⟩
  obtain ⟨scans, state, hscans, -, hiff⟩ := first_header_line_entry_iff .sample {} _ _ _ 2
    Profile.sample_valid pushed ⟨_, rfl, rfl⟩ fun j result hj hresult hheader => by
      obtain rfl | rfl : j = 0 ∨ j = 1 := by omega
      · cases hresult; cases hheader
      · cases hresult; cases hheader
  exact ⟨scans, state, hscans, hiff⟩

/-- A comment that a first line with `#!` leaves open is taken for the header, although the first
header line begins inside it. -/
theorem header_inside_comment_of_shebang :
    Profile.sample.Valid ∧ ({} : HeaderPolicy).style = .block ∧
      (pushAll .sample {} (.start {}) ["#! /*".toList, "x */".toList]).map
          (·.1.map (·.category)) = .ok [.code, .header] ∧
      (Profile.sample.scanLines .normal ["#! /*".toList]).map (·.2) = .ok (.inBlock 0 1) :=
  ⟨Profile.sample_valid, rfl, by cbv, by cbv⟩

end Progress

end SourceTally
