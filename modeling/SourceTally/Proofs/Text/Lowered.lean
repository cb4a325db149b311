import SourceTally.Proofs.Basic
import SourceTally.Text.Lowercase

/-!
# Texts in lower case

Lowering a text twice is lowering it once (`Text.lower_lower`). A character that lowering leaves as
it is, whatever stands around it, is lowered (`Text.Lowered`), and all that lowering makes of a
character is (`Text.lowered_of_mem_lowerAt`). For the letters of the table this is because no run of
the table holds a letter that some run leads to. The letters on the two sides are some 1400 each, and
they are compared as sets of bits of two numbers (`Text.bits`), which is one operation on these.
-/

namespace SourceTally.Text

/-! ## Sets of numbers -/

/-- The set of the numbers, as the bits of one number. -/
def bits (ns : List Nat) : Nat :=
  ns.foldr (fun n set => 1 <<< n ||| set) 0

theorem testBit_bits (ns : List Nat) (n : Nat) : (bits ns).testBit n = true ↔ n ∈ ns := by
  induction ns with
  | nil => simp [bits]
  | cons m ns ih =>
    have hbit : (1 <<< m).testBit n = decide (m = n) := by
      rw [Nat.one_shiftLeft, Nat.testBit_two_pow]
    rw [bits, List.foldr_cons, Nat.testBit_or, Bool.or_eq_true, hbit, decide_eq_true_eq,
      List.mem_cons, eq_comm]
    exact or_congr_right ih

/-- Sets that have no bit in common have no number in common. -/
theorem notMem_of_bits {ns ms : List Nat} (h : bits ns &&& bits ms = 0) {n : Nat} (hn : n ∈ ns) :
    n ∉ ms := by
  intro hm
  have hboth : (bits ns &&& bits ms).testBit n = true := by
    rw [Nat.testBit_and, (testBit_bits ns n).2 hn, (testBit_bits ms n).2 hm, Bool.and_true]
  rw [h, Nat.zero_testBit] at hboth
  cases hboth

/-! ## The table -/

namespace CaseRun

/-- Numbers in the distances of the letters of the run, from `start` on. -/
def lettersFrom (run : CaseRun) (start : Nat) : List Nat :=
  (List.range ((run.last - run.first) / run.stride + 1)).map fun i => start + run.stride * i

/-- A letter of the run stands among them as far behind the start as behind the first letter. -/
theorem mem_lettersFrom {run : CaseRun} {n : Nat} (h : run.holds n = true) (start : Nat) :
    start + (n - run.first) ∈ run.lettersFrom start := by
  simp only [holds, Bool.and_eq_true, decide_eq_true_eq, beq_iff_eq] at h
  obtain ⟨⟨hfirst, hlast⟩, hstride⟩ := h
  refine List.mem_map.2 ⟨(n - run.first) / run.stride, ?_, ?_⟩
  · refine List.mem_range.2 (Nat.lt_succ_of_le (Nat.div_le_div_right ?_))
    omega
  · rw [Nat.mul_div_cancel' (Nat.dvd_of_mod_eq_zero hstride)]

end CaseRun

/-- The letters that lowering changes. -/
def upperLetters : List Nat :=
  'İ'.toNat :: lowerRuns.flatMap fun run => run.lettersFrom run.first

/-- The letters that the runs of the table lead to. -/
def runImages : List Nat :=
  lowerRuns.flatMap fun run => run.lettersFrom run.lower

theorem runImages_disjoint : bits runImages &&& bits upperLetters = 0 := by
  decide +kernel

variable {c : Char} {run : CaseRun}

theorem mem_upperLetters (hrun : run ∈ lowerRuns) (hc : run.holds c.toNat = true) :
    c.toNat ∈ upperLetters := by
  have hle : run.first ≤ c.toNat := by
    simp only [CaseRun.holds, Bool.and_eq_true, decide_eq_true_eq] at hc
    exact hc.1.1
  have hletter := CaseRun.mem_lettersFrom hc run.first
  rw [Nat.add_sub_cancel' hle] at hletter
  exact List.mem_cons_of_mem _ (List.mem_flatMap.2 ⟨run, hrun, hletter⟩)

/-- A letter is left as it is, or it goes where a run of the table leads it. -/
theorem lowerLetter_cases (c : Char) :
    lowerLetter c = c ∨ ∃ run ∈ lowerRuns, run.holds c.toNat = true ∧
      lowerLetter c = Char.ofNat (run.lower + (c.toNat - run.first)) := by
  unfold lowerLetter
  split
  next run hfind =>
    split
    next hholds => exact .inr ⟨run, List.mem_of_find?_eq_some hfind, hholds, rfl⟩
    next => exact .inl rfl
  next => exact .inl rfl

/-! ## Lowered characters -/

/-- Lowering leaves the character as it is, whatever stands around it. -/
def Lowered (c : Char) : Prop :=
  ∀ before after, lowerAt before c after = [c]

theorem lowered_of_lowerLetter (hdotted : c ≠ 'İ') (h : lowerLetter c = c) : Lowered c := by
  have hsigma : c ≠ 'Σ' := by
    rintro rfl
    exact absurd h (by decide +kernel)
  intro before after
  rw [lowerAt, if_neg hsigma, if_neg hdotted, h]

/-- Lowering leaves every other letter as it is. -/
theorem lowered_of_notMem (h : c.toNat ∉ upperLetters) : Lowered c := by
  refine lowered_of_lowerLetter ?_ ?_
  · rintro rfl
    exact h List.mem_cons_self
  · refine (lowerLetter_cases c).resolve_right ?_
    rintro ⟨run, hrun, hholds, -⟩
    exact h (mem_upperLetters hrun hholds)

/-- The table leads to lowered letters. -/
theorem lowered_lowerLetter (hdotted : c ≠ 'İ') : Lowered (lowerLetter c) := by
  rcases lowerLetter_cases c with heq | ⟨run, hrun, hholds, heq⟩
  · rw [heq]
    exact lowered_of_lowerLetter hdotted heq
  · rw [heq]
    have himage : run.lower + (c.toNat - run.first) ∈ runImages :=
      List.mem_flatMap.2 ⟨run, hrun, CaseRun.mem_lettersFrom hholds run.lower⟩
    by_cases hvalid : (run.lower + (c.toNat - run.first)).isValidChar
    · refine lowered_of_notMem ?_
      rw [Char.toNat_ofNat, if_pos hvalid]
      exact notMem_of_bits runImages_disjoint himage
    · -- A number that is no character stands for the first character of all.
      rw [Char.ofNat, dif_neg hvalid]
      exact lowered_of_lowerLetter (by decide) (by decide)

/-- All that lowering makes of a character is lowered. -/
theorem lowered_of_mem_lowerAt {before after : List Char} {d : Char}
    (h : d ∈ lowerAt before c after) : Lowered d := by
  unfold lowerAt at h
  split at h
  · split at h
    · obtain rfl := List.mem_singleton.1 h
      exact lowered_of_lowerLetter (by decide) (by decide +kernel)
    · obtain rfl := List.mem_singleton.1 h
      exact lowered_of_lowerLetter (by decide) (by decide +kernel)
  · split at h
    · rcases List.mem_pair.1 h with rfl | rfl
      · exact lowered_of_lowerLetter (by decide) (by decide +kernel)
      · exact lowered_of_lowerLetter (by decide) (by decide +kernel)
    next hdotted =>
      obtain rfl := List.mem_singleton.1 h
      exact lowered_lowerLetter hdotted

/-! ## Lowered texts -/

/-- A text of lowered characters is left as it is. -/
theorem lowerFrom_of_lowered {text : List Char} (h : ∀ c ∈ text, Lowered c) (before : List Char) :
    lowerFrom before text = text := by
  induction text generalizing before with
  | nil => rfl
  | cons c text ih =>
    obtain ⟨hc, htext⟩ := List.forall_mem_cons.1 h
    rw [lowerFrom, hc before text, ih htext, List.singleton_append]

theorem lowered_of_mem_lowerFrom {before text : List Char} :
    ∀ c ∈ lowerFrom before text, Lowered c := by
  induction text generalizing before with
  | nil => exact fun c hc => absurd hc List.not_mem_nil
  | cons c text ih => exact List.forall_mem_append.2 ⟨fun d => lowered_of_mem_lowerAt, ih⟩

/-- Lowering a name twice is lowering it once. -/
theorem lower_lower (name : String) : lower (lower name) = lower name := by
  rw [lower, lower, String.toList_ofList, lowerFrom_of_lowered lowered_of_mem_lowerFrom]

end SourceTally.Text
