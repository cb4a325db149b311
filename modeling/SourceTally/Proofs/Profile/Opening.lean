import SourceTally.Proofs.Scan.Rules

/-!
# What opens at a place

Of all opening delimiters that stand at a place the longest wins, and among equally long ones the
order of precedence decides (`Opening.Precedes`): strings come before block comments, block comments
before line comments, and what is declared first before the others. `Profile.Wins` says this of one
delimiter against all that are declared, without the list that `Profile.opening?` goes through, and
the delimiter that wins is the one that is found (`Profile.opening?_eq_some_iff`). In bytes, it is the
first of the greatest size (`Profile.opening?_longest_first`).
-/

namespace SourceTally

namespace Opening

/-- Among delimiters of one length the first has precedence over the second, or is the same. -/
def Precedes : Opening → Opening → Prop
  | .string i, .string j => i ≤ j
  | .string _, _ => True
  | .block i, .block j => i ≤ j
  | .block _, .line => True
  | .line, .line => True
  | _, _ => False

theorem Precedes.refl (o : Opening) : o.Precedes o := by
  cases o with
  | string i | block i => exact Nat.le_refl i
  | line => trivial

theorem Precedes.antisymm {o o' : Opening} (h : o.Precedes o') (h' : o'.Precedes o) : o = o' := by
  cases o with
  | string i =>
    cases o' with
    | string j => exact congrArg string (Nat.le_antisymm h h')
    | block | line => exact False.elim h'
  | block i =>
    cases o' with
    | string => exact False.elim h
    | block j => exact congrArg block (Nat.le_antisymm h h')
    | line => exact False.elim h'
  | line =>
    cases o' with
    | string | block => exact False.elim h
    | line => rfl

end Opening

namespace Profile

variable {p : Profile} {rest : List Char} {o : Opening} {token : Token}

/-! ## The first longest -/

/-- Nothing is found when the text begins with none of the delimiters. -/
theorem longestPrefix_eq_none_iff {os : List (Opening × Token)} :
    longestPrefix rest os = none ↔ ∀ x ∈ os, ¬ x.2 <+: rest := by
  induction os with
  | nil => simp [longestPrefix]
  | cons y os ih =>
    rw [longestPrefix, List.forall_mem_cons, ← ih]
    cases longestPrefix rest os with
    | none => simp
    | some best =>
      refine iff_of_false ?_ fun h => absurd h.2 (Option.some_ne_none best)
      simp only
      split <;> exact Option.some_ne_none _

/-- What is found is longer than every other delimiter that the text begins with, or as long and
before it in the list. -/
theorem longer_of_longestPrefix {R : Opening × Token → Opening × Token → Prop} (refl : ∀ x, R x x)
    {os : List (Opening × Token)} (ordered : os.Pairwise R) {found : Opening × Token}
    (h : longestPrefix rest os = some found) :
    ∀ x ∈ os, x.2 <+: rest → x.2.length < found.2.length ∨
      (x.2.length = found.2.length ∧ R found x) := by
  induction os generalizing found with
  | nil => nofun
  | cons y os ih =>
    obtain ⟨hy, hos⟩ := List.pairwise_cons.1 ordered
    intro x hx hstands
    rw [longestPrefix] at h
    cases hbest : longestPrefix rest os with
    | none =>
      have hnone := longestPrefix_eq_none_iff.1 hbest
      rw [hbest] at h
      simp only [Option.ite_none_right_eq_some, Option.some.injEq] at h
      obtain ⟨-, rfl⟩ := h
      rcases List.mem_cons.1 hx with rfl | hx
      · exact .inr ⟨rfl, refl x⟩
      · exact absurd hstands (hnone x hx)
    | some best =>
      rw [hbest] at h
      simp only [Bool.and_eq_true, List.isPrefixOf_iff_prefix, decide_eq_true_eq] at h
      split at h
      next hwins =>
        -- The first of the list is at least as long as the best of the others.
        obtain rfl := Option.some.inj h
        rcases List.mem_cons.1 hx with rfl | hx
        · exact .inr ⟨rfl, refl x⟩
        · rcases Nat.lt_or_ge x.2.length y.2.length with hlt | hge
          · exact .inl hlt
          · refine .inr ⟨?_, hy x hx⟩
            rcases ih hos hbest x hx hstands with hlt | ⟨heq, -⟩ <;> omega
      next hloses =>
        obtain rfl := Option.some.inj h
        rcases List.mem_cons.1 hx with rfl | hx
        · exact .inl (Nat.lt_of_not_le fun hle => hloses ⟨hstands, hle⟩)
        · exact ih hos hbest x hx hstands

/-! ## The order of the openings -/

/-- The opening delimiters are those that are declared. -/
theorem mem_openings_iff : (o, token) ∈ p.openings ↔ p.Declares token o := by
  refine ⟨declares_of_mem_openings, fun h => ?_⟩
  simp only [openings, List.mem_append, List.mem_map, Prod.mk.injEq, Prod.exists]
  cases o with
  | string i =>
    obtain ⟨s, hs, rfl⟩ := h
    exact .inl (.inl ⟨s, i, List.mk_mem_zipIdx_iff_getElem?.2 hs, rfl, rfl⟩)
  | block i =>
    obtain ⟨b, hb, rfl⟩ := h
    exact .inl (.inr ⟨b, i, List.mk_mem_zipIdx_iff_getElem?.2 hb, rfl, rfl⟩)
  | line => exact .inr ⟨token, h, rfl, rfl⟩

/-- The indices of a list go up. -/
theorem pairwise_zipIdx {α : Type} (l : List α) : l.zipIdx.Pairwise fun x y => x.2 ≤ y.2 := by
  have hindices := List.zipIdx_map_snd 0 l
  rw [← List.pairwise_map (f := Prod.snd) (R := (· ≤ ·)), hindices]
  exact List.pairwise_le_range' 1

/-- The openings are listed in order of precedence. -/
theorem pairwise_openings (p : Profile) :
    p.openings.Pairwise fun x y => x.1.Precedes y.1 := by
  unfold openings
  rw [List.pairwise_append, List.pairwise_append, List.pairwise_map, List.pairwise_map,
    List.pairwise_map]
  refine ⟨⟨pairwise_zipIdx _, pairwise_zipIdx _, ?_⟩, ?_, ?_⟩
  · intro x hx y hy
    obtain ⟨_, -, rfl⟩ := List.mem_map.1 hx
    obtain ⟨_, -, rfl⟩ := List.mem_map.1 hy
    trivial
  · exact List.pairwise_of_forall fun _ _ => trivial
  · intro x hx y hy
    obtain ⟨_, -, rfl⟩ := List.mem_map.1 hy
    rcases List.mem_append.1 hx with hx | hx
    · obtain ⟨_, -, rfl⟩ := List.mem_map.1 hx
      trivial
    · obtain ⟨_, -, rfl⟩ := List.mem_map.1 hx
      trivial

/-! ## The winner -/

/-- The declared delimiter stands at the beginning of the text, and every other one that does is
shorter, or the same token without precedence over it. -/
structure Wins (p : Profile) (rest : List Char) (o : Opening) (token : Token) : Prop where
  declares : p.Declares token o
  stands : token <+: rest
  best : ∀ o' token', p.Declares token' o' → token' <+: rest →
    token'.length < token.length ∨ (token' = token ∧ o.Precedes o')

/-- Only one delimiter wins. -/
theorem Wins.unique {o' : Opening} {token' : Token} (h : p.Wins rest o token)
    (h' : p.Wins rest o' token') : o = o' ∧ token = token' := by
  rcases h.best o' token' h'.declares h'.stands with hlt | ⟨rfl, hprecedes⟩
  · rcases h'.best o token h.declares h.stands with hlt' | ⟨rfl, -⟩ <;> omega
  · rcases h'.best o token' h.declares h.stands with hlt | ⟨-, hprecedes'⟩
    · exact absurd hlt (Nat.lt_irrefl _)
    · exact ⟨hprecedes.antisymm hprecedes', rfl⟩

/-- What is found wins. -/
theorem wins_of_opening? (h : p.opening? rest = some (o, token)) : p.Wins rest o token := by
  obtain ⟨hdeclares, hstands⟩ := declares_of_opening? h
  refine ⟨hdeclares, hstands, fun o' token' hdeclares' hstands' => ?_⟩
  have hlonger := longer_of_longestPrefix (fun x => Opening.Precedes.refl x.1)
    p.pairwise_openings h _ (mem_openings_iff.2 hdeclares') hstands'
  refine hlonger.imp_right fun ⟨hlength, hprecedes⟩ => ⟨?_, hprecedes⟩
  exact (List.prefix_of_prefix_length_le hstands' hstands hlength.le).eq_of_length hlength

/-- Nothing opens when no delimiter that opens something stands at the beginning of the text. -/
theorem opening?_eq_none_iff :
    p.opening? rest = none ↔ ∀ o token, p.Declares token o → ¬ token <+: rest := by
  rw [opening?, longestPrefix_eq_none_iff, Prod.forall]
  simp only [mem_openings_iff]

/-- The delimiter that is found is the one that wins. -/
theorem opening?_eq_some_iff : p.opening? rest = some (o, token) ↔ p.Wins rest o token := by
  refine ⟨wins_of_opening?, fun h => ?_⟩
  cases hfound : p.opening? rest with
  | none => exact absurd h.stands (opening?_eq_none_iff.1 hfound o token h.declares)
  | some found =>
    obtain ⟨rfl, rfl⟩ := h.unique (wins_of_opening? hfound)
    rfl

/-! ## Length in bytes, then kind, then index -/

/-- Of two delimiters that stand at one place, the one that has more characters has more bytes. -/
theorem byteLength_lt_of_stands {token' : Token} (hstands : token <+: rest)
    (hstands' : token' <+: rest) (hlt : token.length < token'.length) :
    Text.byteLength token < Text.byteLength token' := by
  obtain ⟨more, rfl⟩ := List.prefix_of_prefix_length_le hstands hstands' hlt.le
  have hmore : more ≠ [] := by
    rintro rfl
    rw [List.append_nil] at hlt
    exact Nat.lt_irrefl _ hlt
  have hpos := Text.byteLength_pos hmore
  rw [Text.byteLength_append]
  omega

/-- A delimiter of `size` bytes that opens `o` stands at the beginning of the text. -/
def OpensIn (p : Profile) (rest : List Char) (size : Nat) (o : Opening) : Prop :=
  ∃ token, p.Declares token o ∧ token <+: rest ∧ Text.byteLength token = size

/-- What opens when a delimiter of `size` bytes does: the string with the smallest index, or else
the block comment with the smallest index, or else a line comment. -/
inductive FirstOf (p : Profile) (rest : List Char) (size : Nat) : Opening → Prop where
  | string {i : Nat} : IsLeast {j | p.OpensIn rest size (.string j)} i →
      p.FirstOf rest size (.string i)
  | block {i : Nat} : (∀ j, ¬ p.OpensIn rest size (.string j)) →
      IsLeast {j | p.OpensIn rest size (.block j)} i → p.FirstOf rest size (.block i)
  | line : (∀ j, ¬ p.OpensIn rest size (.string j)) → (∀ j, ¬ p.OpensIn rest size (.block j)) →
      p.OpensIn rest size .line → p.FirstOf rest size .line

/-- The first of a size is the one with precedence over all others of that size. -/
theorem firstOf_iff {size : Nat} :
    p.FirstOf rest size o ↔
      p.OpensIn rest size o ∧ ∀ o', p.OpensIn rest size o' → o.Precedes o' := by
  constructor
  · intro h
    cases h with
    | string hleast =>
      refine ⟨hleast.1, fun o' ho' => ?_⟩
      cases o' with
      | string j => exact hleast.2 ho'
      | block | line => trivial
    | block hstring hleast =>
      refine ⟨hleast.1, fun o' ho' => ?_⟩
      cases o' with
      | string j => exact absurd ho' (hstring j)
      | block j => exact hleast.2 ho'
      | line => trivial
    | line hstring hblock hline =>
      refine ⟨hline, fun o' ho' => ?_⟩
      cases o' with
      | string j => exact absurd ho' (hstring j)
      | block j => exact absurd ho' (hblock j)
      | line => trivial
  · intro ⟨hopens, hprecedes⟩
    cases o with
    | string i => exact .string ⟨hopens, fun j hj => hprecedes (.string j) hj⟩
    | block i =>
      exact .block (fun j hj => hprecedes (.string j) hj)
        ⟨hopens, fun j hj => hprecedes (.block j) hj⟩
    | line =>
      exact .line (fun j hj => hprecedes (.string j) hj) (fun j hj => hprecedes (.block j) hj)
        hopens

/-- The delimiter that wins has the greatest number of bytes, and is the first of that size. -/
theorem Wins.longest_first (h : p.Wins rest o token) :
    IsGreatest {size | ∃ o, p.OpensIn rest size o} (Text.byteLength token) ∧
      p.FirstOf rest (Text.byteLength token) o := by
  refine ⟨⟨⟨o, token, h.declares, h.stands, rfl⟩, ?_⟩, firstOf_iff.2
    ⟨⟨token, h.declares, h.stands, rfl⟩, ?_⟩⟩
  · rintro _ ⟨o', token', hdeclares', hstands', rfl⟩
    rcases h.best o' token' hdeclares' hstands' with hlt | ⟨rfl, -⟩
    · exact (byteLength_lt_of_stands hstands' h.stands hlt).le
    · exact Nat.le_refl _
  · rintro o' ⟨token', hdeclares', hstands', hsize⟩
    rcases h.best o' token' hdeclares' hstands' with hlt | ⟨-, hprecedes⟩
    · exact absurd hsize (byteLength_lt_of_stands hstands' h.stands hlt).ne
    · exact hprecedes

/-- The first delimiter of the greatest size wins. -/
theorem FirstOf.exists_wins {size : Nat}
    (hgreatest : IsGreatest {size | ∃ o, p.OpensIn rest size o} size)
    (hfirst : p.FirstOf rest size o) :
    ∃ token, p.Wins rest o token ∧ Text.byteLength token = size := by
  obtain ⟨⟨token, hdeclares, hstands, rfl⟩, hprecedes⟩ := firstOf_iff.1 hfirst
  refine ⟨token, ⟨hdeclares, hstands, fun o' token' hdeclares' hstands' => ?_⟩, rfl⟩
  have hle : Text.byteLength token' ≤ Text.byteLength token :=
    hgreatest.2 ⟨o', token', hdeclares', hstands', rfl⟩
  rcases Nat.lt_trichotomy token'.length token.length with hlt | heq | hgt
  · exact .inl hlt
  · obtain rfl : token' = token :=
      (List.prefix_of_prefix_length_le hstands' hstands heq.le).eq_of_length heq
    exact .inr ⟨rfl, hprecedes o' ⟨token', hdeclares', hstands', rfl⟩⟩
  · have hmore := byteLength_lt_of_stands hstands hstands' hgt
    omega

/-- What opens at a place. Nothing does when no opening delimiter of a string, of a block comment or
of a line comment stands there. What is found else has the size in bytes of the longest of them, and
among those of that size it is the string with the smallest index, or else the block comment with
the smallest index, or else a line comment. -/
theorem opening?_longest_first (p : Profile) (rest : List Char) :
    (p.opening? rest = none ↔
      (∀ s ∈ p.strings, ¬ s.opening <+: rest) ∧ (∀ b ∈ p.blockComments, ¬ b.opening <+: rest) ∧
        ∀ token ∈ p.lineComments, ¬ token <+: rest) ∧
    ∀ o size, (∃ token, p.opening? rest = some (o, token) ∧ Text.byteLength token = size) ↔
      IsGreatest {size | ∃ o, p.OpensIn rest size o} size ∧ p.FirstOf rest size o := by
  refine ⟨?_, fun o size => ?_⟩
  · rw [opening?_eq_none_iff]
    constructor
    · intro h
      refine ⟨fun s hs => ?_, fun b hb => ?_, fun token htoken => h .line token htoken⟩
      · obtain ⟨i, hi⟩ := List.mem_iff_getElem?.1 hs
        exact h (.string i) s.opening ⟨s, hi, rfl⟩
      · obtain ⟨i, hi⟩ := List.mem_iff_getElem?.1 hb
        exact h (.block i) b.opening ⟨b, hi, rfl⟩
    · intro ⟨hstrings, hblocks, hlines⟩ o token hdeclares
      cases o with
      | string i =>
        obtain ⟨s, hs, rfl⟩ := hdeclares
        exact hstrings s (List.mem_of_getElem? hs)
      | block i =>
        obtain ⟨b, hb, rfl⟩ := hdeclares
        exact hblocks b (List.mem_of_getElem? hb)
      | line => exact hlines token hdeclares
  · simp only [opening?_eq_some_iff]
    constructor
    · rintro ⟨token, hwins, rfl⟩
      exact hwins.longest_first
    · intro ⟨hgreatest, hfirst⟩
      exact hfirst.exists_wins hgreatest

/-- A directive that begins like a comment: the longer delimiter wins, and of two that are the same
the string does. -/
example :
    let p : Profile := {
      id := "p", name := "P", lineComments := [['(', '*', '$']],
      blockComments := [⟨['(', '*'], ['*', ')'], false⟩],
      strings := [⟨['"'], ['"'], .none, false⟩, ⟨['(', '*', '$'], ['*', ')'], .none, false⟩] }
    p.opening? "(*$I".toList = some (.string 1, ['(', '*', '$']) ∧
      p.opening? "(*I".toList = some (.block 0, ['(', '*']) ∧ p.opening? "I".toList = none := by
  decide

end Profile

end SourceTally
