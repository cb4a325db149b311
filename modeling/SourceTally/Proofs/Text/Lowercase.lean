import SourceTally.Proofs.Basic
import SourceTally.Text.Lowercase

/-!
# The lower-case form of a part

The lower-case form of a text ends in the lower-case form of each of its last parts, but for one
letter. A capital sigma is lowered by what precedes it, and what precedes it in the part is not all
that precedes it in the text. This shows only where a part begins with a capital sigma, passing over
case-ignorable characters, and no cased letter follows (`Text.beginsWithFinalSigma`): by itself such
a sigma begins a word, and behind a cased letter it ends one. `Text.lowerFrom_append_eq_iff` says that
there is no other exception, and `Text.dot_lower_suffix_iff` what follows for a name and the part of
it behind a dot.
-/

namespace SourceTally.Text

variable {before before' seen context text after : List Char} {c : Char}

/-! ## What precedes a sigma -/

theorem meetsCased_cons_of_ignorable (h : isCaseIgnorable c = true) (text : List Char) :
    meetsCased (c :: text) = meetsCased text := by
  rw [meetsCased, List.dropWhile_cons_of_pos h, meetsCased]

theorem meetsCased_cons_of_not_ignorable (h : isCaseIgnorable c = false) (text : List Char) :
    meetsCased (c :: text) = isCased c := by
  rw [meetsCased, List.dropWhile_cons_of_neg (Bool.eq_false_iff.1 h)]

/-- Case-ignorable characters are looked through. -/
theorem meetsCased_append_of_ignorable (h : ∀ c ∈ seen, isCaseIgnorable c = true)
    (context : List Char) : meetsCased (seen ++ context) = meetsCased context := by
  induction seen with
  | nil => rfl
  | cons c seen ih =>
    obtain ⟨hc, hseen⟩ := List.forall_mem_cons.1 h
    rw [List.cons_append, meetsCased_cons_of_ignorable hc, ih hseen]

theorem meetsCased_of_ignorable (h : ∀ c ∈ seen, isCaseIgnorable c = true) :
    meetsCased seen = false := by
  rw [← List.append_nil seen, meetsCased_append_of_ignorable h]
  rfl

/-- Nothing is seen beyond a character that is not case-ignorable. -/
theorem meetsCased_append_of_not_ignorable (h : ∃ c ∈ seen, isCaseIgnorable c = false)
    (context : List Char) : meetsCased (seen ++ context) = meetsCased seen := by
  induction seen with
  | nil =>
    obtain ⟨c, hc, -⟩ := h
    exact absurd hc List.not_mem_nil
  | cons c seen ih =>
    rw [List.cons_append]
    cases hc : isCaseIgnorable c with
    | false => rw [meetsCased_cons_of_not_ignorable hc, meetsCased_cons_of_not_ignorable hc]
    | true =>
      rw [meetsCased_cons_of_ignorable hc, meetsCased_cons_of_ignorable hc]
      obtain ⟨d, hd, hignorable⟩ := h
      rcases List.mem_cons.1 hd with rfl | hd
      · cases hc.symm.trans hignorable
      · exact ih ⟨d, hd, hignorable⟩

/-! ## One character in two contexts -/

theorem lowerAt_eq_of_meetsCased_eq (h : meetsCased before = meetsCased before') :
    lowerAt before c after = lowerAt before' c after := by
  rw [lowerAt, lowerAt, h]

/-- Only the sigma depends on what precedes it. -/
theorem lowerAt_eq_of_ne_sigma (h : c ≠ 'Σ') :
    lowerAt before c after = lowerAt before' c after := by
  rw [lowerAt, lowerAt, if_neg h, if_neg h]

/-- A sigma that begins a word and one that has a cased letter somewhere before it are the same just
if a cased letter follows. -/
theorem lowerAt_sigma_eq_iff (hseen : meetsCased before' = false) :
    lowerAt before 'Σ' after = lowerAt before' 'Σ' after ↔
      ¬ (meetsCased before = true ∧ meetsCased after = false) := by
  rw [lowerAt, lowerAt, if_pos rfl, if_pos rfl, hseen]
  cases meetsCased before <;> cases meetsCased after <;> simp

theorem length_lowerAt (before before' : List Char) (c : Char) (after : List Char) :
    (lowerAt before c after).length = (lowerAt before' c after).length := by
  by_cases hsigma : c = 'Σ'
  · simp only [lowerAt, if_pos hsigma]
    split <;> split <;> rfl
  · rw [lowerAt_eq_of_ne_sigma hsigma]

/-! ## A text in two contexts -/

/-- What precedes a text has no influence on the length of its lower-case form. -/
theorem length_lowerFrom (before before' text : List Char) :
    (lowerFrom before text).length = (lowerFrom before' text).length := by
  induction text generalizing before before' with
  | nil => rfl
  | cons c text ih =>
    rw [lowerFrom, lowerFrom, List.length_append, List.length_append,
      length_lowerAt before before', ih (c :: before) (c :: before')]

/-- The lower-case form of a text ends in that of its last part, with the first part before it. -/
theorem exists_lowerFrom_append (before text after : List Char) :
    ∃ front, lowerFrom before (text ++ after) =
      front ++ lowerFrom (text.reverse ++ before) after := by
  induction text generalizing before with
  | nil => exact ⟨[], rfl⟩
  | cons c text ih =>
    obtain ⟨front, hfront⟩ := ih (c :: before)
    refine ⟨lowerAt before c (text ++ after) ++ front, ?_⟩
    rw [List.cons_append, lowerFrom, hfront, List.reverse_cons, List.append_assoc, List.append_assoc,
      List.singleton_append]

/-- Behind a character that is not case-ignorable, what precedes it does not matter any more. -/
theorem lowerFrom_append_of_not_ignorable (h : ∃ c ∈ seen, isCaseIgnorable c = false)
    (context text : List Char) : lowerFrom (seen ++ context) text = lowerFrom seen text := by
  induction text generalizing seen with
  | nil => rfl
  | cons c text ih =>
    have hmore : ∃ d ∈ c :: seen, isCaseIgnorable d = false := by
      obtain ⟨d, hd, hignorable⟩ := h
      exact ⟨d, List.mem_cons_of_mem c hd, hignorable⟩
    rw [lowerFrom, lowerFrom, ← List.cons_append, ih hmore,
      lowerAt_eq_of_meetsCased_eq (meetsCased_append_of_not_ignorable h context)]

/-- A capital sigma comes first, once the case-ignorable characters are passed over, and no cased
letter follows it. -/
def beginsWithFinalSigma (text : List Char) : Bool :=
  match text.dropWhile isCaseIgnorable with
  | [] => false
  | c :: after => c = 'Σ' && !meetsCased after

theorem beginsWithFinalSigma_cons_of_ignorable (h : isCaseIgnorable c = true) (text : List Char) :
    beginsWithFinalSigma (c :: text) = beginsWithFinalSigma text := by
  rw [beginsWithFinalSigma, List.dropWhile_cons_of_pos h, beginsWithFinalSigma]

theorem beginsWithFinalSigma_cons_of_not_ignorable (h : isCaseIgnorable c = false)
    (text : List Char) :
    beginsWithFinalSigma (c :: text) = (decide (c = 'Σ') && !meetsCased text) := by
  rw [beginsWithFinalSigma, List.dropWhile_cons_of_neg (Bool.eq_false_iff.1 h)]

theorem isCaseIgnorable_sigma : isCaseIgnorable 'Σ' = false := by
  decide +kernel

/-- A text is lowered alike with something before it and without, unless it begins with a sigma that
ends no word by itself and ends one there. -/
theorem lowerFrom_append_eq_iff (h : ∀ c ∈ seen, isCaseIgnorable c = true)
    (context text : List Char) :
    lowerFrom (seen ++ context) text = lowerFrom seen text ↔
      ¬ (meetsCased context = true ∧ beginsWithFinalSigma text = true) := by
  induction text generalizing seen with
  | nil => exact iff_of_true rfl fun hshift => Bool.false_ne_true hshift.2
  | cons c text ih =>
    rw [lowerFrom, lowerFrom, ← List.cons_append]
    cases hc : isCaseIgnorable c with
    | true =>
      -- The character is no sigma, and the rest of the text begins behind it.
      have hsigma : c ≠ 'Σ' := by
        rintro rfl
        cases isCaseIgnorable_sigma.symm.trans hc
      rw [lowerAt_eq_of_ne_sigma hsigma, List.append_right_inj,
        ih (List.forall_mem_cons.2 ⟨hc, h⟩), beginsWithFinalSigma_cons_of_ignorable hc]
    | false =>
      -- The rest of the text does not see beyond the character, so only the character matters.
      rw [lowerFrom_append_of_not_ignorable ⟨c, List.mem_cons_self, hc⟩, List.append_left_inj,
        beginsWithFinalSigma_cons_of_not_ignorable hc]
      by_cases hsigma : c = 'Σ'
      · rw [hsigma, lowerAt_sigma_eq_iff (meetsCased_of_ignorable h),
          meetsCased_append_of_ignorable h]
        simp
      · refine iff_of_true (lowerAt_eq_of_ne_sigma hsigma) ?_
        simp [hsigma]

/-! ## Names with a dot -/

/-- In the name that is made up of the two with a dot between them, a sigma is lowered in another way
than in the second part by itself. -/
def shiftsSigma (stem part : String) : Bool :=
  meetsCased stem.toList.reverse && beginsWithFinalSigma part.toList

theorem isCaseIgnorable_dot : isCaseIgnorable '.' = true := by
  decide

/-- The lower-case form of a name ends in the lower-case form of what stands behind a dot, unless a
sigma is lowered in another way there. -/
theorem dot_lower_suffix_iff (stem part : String) :
    '.' :: (lower part).toList <:+ (lower (stem ++ "." ++ part)).toList ↔
      shiftsSigma stem part = false := by
  have hname : (stem ++ "." ++ part).toList = stem.toList ++ '.' :: part.toList := by simp
  obtain ⟨front, hfront⟩ := exists_lowerFrom_append [] stem.toList ('.' :: part.toList)
  have hdot : ∀ before after, lowerAt before '.' after = ['.'] := by
    intro before after
    rw [lowerAt, if_neg (by decide), if_neg (by decide)]
    rfl
  rw [List.append_nil, lowerFrom, hdot, List.singleton_append] at hfront
  rw [lower, lower, hname, hfront, String.toList_ofList, String.toList_ofList]
  have hcontext := lowerFrom_append_eq_iff (fun c (hc : c ∈ []) => absurd hc List.not_mem_nil)
    ('.' :: stem.toList.reverse) part.toList
  rw [List.nil_append, meetsCased_cons_of_ignorable isCaseIgnorable_dot] at hcontext
  have hsame : '.' :: lowerFrom [] part.toList <:+
      front ++ '.' :: lowerFrom ('.' :: stem.toList.reverse) part.toList ↔
      lowerFrom ('.' :: stem.toList.reverse) part.toList = lowerFrom [] part.toList := by
    have hlength := length_lowerFrom [] ('.' :: stem.toList.reverse) part.toList
    constructor
    · intro hsuffix
      have hboth := List.suffix_of_suffix_length_le hsuffix (List.suffix_append front _)
        (by rw [List.length_cons, List.length_cons, hlength])
      have heq := hboth.eq_of_length (by rw [List.length_cons, List.length_cons, hlength])
      exact (List.cons.inj heq).2.symm
    · intro heq
      rw [heq]
      exact List.suffix_append front _
  rw [hsame, hcontext, shiftsSigma, ← Bool.and_eq_true, Bool.not_eq_true]

end SourceTally.Text
