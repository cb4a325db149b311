import SourceTally.Path.Basic
import SourceTally.Proofs.Text.Utf8

/-!
# Names and paths that are text

A name has a text just if it is spelled by it (`Name.text?_eq_some_iff`), and a path that a text
spells is shown as that text (`Path.text_ofText`). No character but the slash has the byte of a
slash, so what stands between the slashes of a path that is text is text too (`Text.split_encode`).
-/

namespace SourceTally

/-! ## Splitting -/

namespace Text

variable {α : Type} [DecidableEq α]

theorem split_eq_splitOnP (separator : α) (cs : List α) :
    split separator cs = cs.splitOnP (· == separator) := by
  induction cs with
  | nil => rfl
  | cons c cs ih =>
    rw [split, List.splitOnP_cons_eq_if_modifyHead, ih]
    simp only [beq_iff_eq]
    split
    · rfl
    · split
      next h => exact absurd h (List.splitOnP_ne_nil _ cs)
      next piece pieces h => rw [h, List.modifyHead_cons]

theorem split_append_cons (separator : α) (as bs : List α) :
    split separator (as ++ separator :: bs) = split separator as ++ split separator bs := by
  simp only [split_eq_splitOnP]
  exact List.splitOnP_append_cons as bs (beq_self_eq_true separator)

theorem split_of_notMem {separator : α} {cs : List α} (h : separator ∉ cs) :
    split separator cs = [cs] := by
  rw [split_eq_splitOnP]
  refine List.splitOnP_eq_singleton fun c hc => ?_
  exact beq_eq_false_iff_ne.2 fun heq => h (heq ▸ hc)

theorem split_ne_nil (separator : α) (cs : List α) : split separator cs ≠ [] := by
  rw [split_eq_splitOnP]
  exact List.splitOnP_ne_nil _ cs

theorem eq_nil_of_split {separator : α} {cs : List α} (h : split separator cs = [[]]) :
    cs = [] := by
  cases cs with
  | nil => rfl
  | cons c cs =>
    rw [split] at h
    split at h
    · exact absurd (List.cons.inj h).2 (split_ne_nil separator cs)
    · split at h <;> simp at h

/-- The pieces hold no separator. -/
theorem notMem_of_mem_split {separator : α} {cs piece : List α}
    (h : piece ∈ split separator cs) : separator ∉ piece := by
  induction cs generalizing piece with
  | nil =>
    obtain rfl := List.mem_singleton.1 h
    exact List.not_mem_nil
  | cons c cs ih =>
    rw [split] at h
    split at h
    · rcases List.mem_cons.1 h with rfl | h
      · exact List.not_mem_nil
      · exact ih h
    · next hc =>
      split at h
      next hnil => exact absurd hnil (split_ne_nil separator cs)
      next first rest hcons =>
        rcases List.mem_cons.1 h with rfl | h
        · have hfirst := ih (hcons ▸ List.mem_cons_self)
          exact List.not_mem_cons_of_ne_of_not_mem (Ne.symm hc) hfirst
        · exact ih (hcons ▸ List.mem_cons_of_mem first h)

theorem slash_mem_encodeChar_iff {c : Char} :
    Path.slash ∈ String.utf8EncodeChar c ↔ c = '/' := by
  rw [← Char.toNat_inj]
  exact byte_mem_encodeChar_iff (n := 0x2F) (by decide)

theorem split_append_of_notMem {separator : α} {as bs piece : List α} {pieces : List (List α)}
    (h : separator ∉ as) (hsplit : split separator bs = piece :: pieces) :
    split separator (as ++ bs) = (as ++ piece) :: pieces := by
  induction as with
  | nil => exact hsplit
  | cons a as ih =>
    rw [List.mem_cons, not_or] at h
    rw [List.cons_append, split, if_neg (Ne.symm h.1), ih h.2]
    rfl

/-- The bytes between the slashes of a text are those of the texts between its slashes. -/
theorem split_encode (text : List Char) :
    split Path.slash (encode text) = (split '/' text).map encode := by
  induction text with
  | nil => rfl
  | cons c text ih =>
    rw [encode_cons, split]
    by_cases hc : c = '/'
    · subst hc
      rw [if_pos rfl, List.map_cons, ← ih]
      rfl
    · obtain ⟨piece, pieces, hsplit⟩ := List.exists_cons_of_ne_nil (split_ne_nil '/' text)
      rw [hsplit, List.map_cons] at ih
      rw [if_neg hc, hsplit, split_append_of_notMem (mt slash_mem_encodeChar_iff.1 hc) ih,
        List.map_cons, encode_cons]

end Text

/-! ## Names -/

namespace Name

variable {name : Name} {text : String}

/-- The text of a name is the one that spells it. -/
theorem text?_eq_some_iff : name.text? = some text ↔ name = ofText text := by
  rw [text?, Option.map_eq_some_iff, ofText]
  constructor
  · rintro ⟨chars, hchars, rfl⟩
    rw [String.toList_ofList, ← Text.decode?_eq_some_iff.1 hchars]
  · intro h
    exact ⟨text.toList, Text.decode?_eq_some_iff.2 (congrArg bytes h), String.ofList_toList⟩

@[simp]
theorem text?_ofText (text : String) : (ofText text).text? = some text :=
  text?_eq_some_iff.2 rfl

end Name

/-! ## Paths -/

namespace Path

@[simp]
theorem text_ofText (text : String) : (ofText text).text = text := by
  rw [Path.text, ofText, Text.decodeLossy_encode, String.ofList_toList]

end Path

end SourceTally
