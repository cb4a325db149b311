import Mathlib
import SourceTally.Text.Utf8

/-!
# Shared lemmas

What the proofs about scans and files have in common: how computations that can fail are taken
apart, and how many bytes a text has.
-/

namespace SourceTally

/-- A computation in two parts succeeds when both parts do. -/
theorem bind_eq_ok_iff {ε α β : Type} {x : Except ε α} {f : α → Except ε β} {b : β} :
    x >>= f = .ok b ↔ ∃ a, x = .ok a ∧ f a = .ok b := by
  cases x with
  | error e => exact ⟨fun h => (nomatch h), fun ⟨_, h, _⟩ => (nomatch h)⟩
  | ok a => exact ⟨fun h => ⟨a, rfl, h⟩, fun ⟨_, h, hf⟩ => by cases h; exact hf⟩

/-- A computation for each element of a list succeeds when each of them does. -/
theorem mapM_eq_ok_iff {ε α β : Type} {f : α → Except ε β} {as : List α} {bs : List β} :
    as.mapM f = .ok bs ↔ List.Forall₂ (fun a b => f a = .ok b) as bs := by
  induction as generalizing bs with
  | nil =>
    rw [List.mapM_nil, List.forall₂_nil_left_iff]
    exact ⟨fun h => (Except.ok.inj h).symm, fun h => congrArg Except.ok h.symm⟩
  | cons a as ih =>
    simp only [List.mapM_cons, bind_eq_ok_iff, ih, List.forall₂_cons_left_iff]
    constructor
    · rintro ⟨b, hb, bs', hbs, h⟩
      exact ⟨b, bs', hb, hbs, (Except.ok.inj h).symm⟩
    · rintro ⟨b, bs', hb, hbs, rfl⟩
      exact ⟨b, hb, bs', hbs, rfl⟩

theorem exists_mapM_eq_ok_iff {ε α β : Type} {f : α → Except ε β} {as : List α} :
    (∃ bs, as.mapM f = .ok bs) ↔ ∀ a ∈ as, ∃ b, f a = .ok b := by
  simp only [mapM_eq_ok_iff]
  induction as with
  | nil => exact ⟨fun _ a ha => absurd ha List.not_mem_nil, fun _ => ⟨[], .nil⟩⟩
  | cons a as ih =>
    rw [List.forall_mem_cons, ← ih]
    constructor
    · rintro ⟨_, h⟩
      cases h with
      | cons hb hbs => exact ⟨⟨_, hb⟩, _, hbs⟩
    · rintro ⟨⟨b, hb⟩, bs, hbs⟩
      exact ⟨b :: bs, .cons hb hbs⟩

/-- A place in a list that is not empty is the first one or a later one. -/
theorem exists_split_cons_iff {α : Type} {P : List α → α → Prop} {x : α} {xs : List α} :
    (∃ before a after, x :: xs = before ++ a :: after ∧ P before a) ↔
      P [] x ∨ ∃ before a after, xs = before ++ a :: after ∧ P (x :: before) a := by
  constructor
  · rintro ⟨before, a, after, h, hp⟩
    cases before with
    | nil =>
      cases h
      exact .inl hp
    | cons b before =>
      cases h
      exact .inr ⟨before, a, after, rfl, hp⟩
  · rintro (hp | ⟨before, a, after, rfl, hp⟩)
    · exact ⟨[], x, xs, rfl, hp⟩
    · exact ⟨x :: before, a, after, rfl, hp⟩

/-- A computation for each element of a list fails as the first element does for which it fails. -/
theorem mapM_eq_error_iff {ε α β : Type} {f : α → Except ε β} {as : List α} {e : ε} :
    as.mapM f = .error e ↔ ∃ before a after, as = before ++ a :: after ∧
      (∀ b ∈ before, ∃ c, f b = .ok c) ∧ f a = .error e := by
  induction as with
  | nil => simp [pure, Except.pure]
  | cons a as ih =>
    have hcons : (a :: as).mapM f = .error e ↔
        f a = .error e ∨ as.mapM f = .error e ∧ ∃ b, f a = .ok b := by
      rw [List.mapM_cons]
      cases f a with
      | error e' => simp [bind, Except.bind]
      | ok b =>
        cases as.mapM f with
        | error e' => simp [bind, Except.bind]
        | ok bs => simp [bind, Except.bind, pure, Except.pure]
    rw [hcons, exists_split_cons_iff, ih]
    refine or_congr (by simp) ?_
    simp only [List.forall_mem_cons]
    constructor
    · rintro ⟨⟨before, a', after, rfl, hbefore, ha'⟩, ha⟩
      exact ⟨before, a', after, rfl, ⟨ha, hbefore⟩, ha'⟩
    · rintro ⟨before, a', after, rfl, ⟨ha, hbefore⟩, ha'⟩
      exact ⟨⟨before, a', after, rfl, hbefore, ha'⟩, ha⟩

/-- The results of such computations are what the elements give. -/
theorem mem_iff_of_forall₂ {ε α β : Type} {f : α → Except ε β} {as : List α} {bs : List β}
    (h : List.Forall₂ (fun a b => f a = .ok b) as bs) {b : β} :
    b ∈ bs ↔ ∃ a ∈ as, f a = .ok b := by
  induction h with
  | nil => simp
  | @cons a c as bs ha _ ih =>
    rw [List.mem_cons, ih]
    constructor
    · rintro (rfl | ⟨a', ha', hb⟩)
      · exact ⟨a, List.mem_cons_self, ha⟩
      · exact ⟨a', List.mem_cons_of_mem _ ha', hb⟩
    · rintro ⟨a', ha', hb⟩
      rcases List.mem_cons.1 ha' with rfl | ha'
      · exact .inl (Except.ok.inj (hb.symm.trans ha))
      · exact .inr ⟨a', ha', hb⟩

namespace Text

@[simp]
theorem byteLength_append (a b : List Char) :
    byteLength (a ++ b) = byteLength a + byteLength b := by
  induction a with
  | nil => simp [byteLength]
  | cons c a ih =>
    simp only [byteLength, List.cons_append, List.foldr_cons] at ih ⊢
    omega

/-- A text that has a character has a byte. -/
theorem byteLength_pos {text : List Char} (h : text ≠ []) : 0 < byteLength text := by
  obtain ⟨c, cs, rfl⟩ := List.exists_cons_of_ne_nil h
  have hc := c.utf8Size_pos
  simp only [byteLength, List.foldr_cons]
  omega

/-- The bytes of a text are those of its first characters and those of the others. -/
theorem byteLength_take_add_drop (n : Nat) (text : List Char) :
    byteLength (text.take n) + byteLength (text.drop n) = byteLength text := by
  rw [← byteLength_append, List.take_append_drop]

/-- The number of bytes of several lines, their ends left out. -/
def totalBytes (lines : List (List Char)) : Nat :=
  (lines.map byteLength).sum

@[simp]
theorem totalBytes_cons (line : List Char) (lines : List (List Char)) :
    totalBytes (line :: lines) = byteLength line + totalBytes lines := by
  simp [totalBytes]

/-- The first lines have no more bytes than all of them. -/
theorem totalBytes_take_le (lines : List (List Char)) (n : Nat) :
    totalBytes (lines.take n) ≤ totalBytes lines := by
  unfold totalBytes
  exact (((List.take_sublist n lines).map byteLength)).sum_le_sum fun _ _ => Nat.zero_le _

/-- The bytes of the lines up to a line are those of the lines before it and its own. -/
theorem totalBytes_take_succ {lines : List (List Char)} {line : List Char} {i : Nat}
    (h : lines[i]? = some line) :
    totalBytes (lines.take (i + 1)) = totalBytes (lines.take i) + byteLength line := by
  simp [totalBytes, List.take_add_one, h]

end Text

end SourceTally
