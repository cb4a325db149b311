import SourceTally.Proofs.Scan.Cross

/-!
# Nested block comments

Where a nestable block comment ends, said by counting. A text is cut greedily from the left into
opening delimiters, closing delimiters and single characters (`BlockPair.pieces`), whatever is open.
A comment of some depth ends with the first piece up to which there are that many more closing than
opening delimiters (`BlockPair.excess`). `Profile.scanLine_nested` says so of every line.

Up to that piece, each piece is a step of the scan, and the depth and the excess add up to the same
(`Profile.crosses_pieces`). The induction is on the pieces, for every depth. Since the excess grows
by at most one, the piece that ends the comment is a closing delimiter at depth one.
-/

namespace SourceTally

namespace BlockPair

/-! ## Pieces -/

/-- A piece of a text inside a block comment. -/
inductive Piece where
  | opening
  | closing
  | char (c : Char)
  deriving DecidableEq, Repr

/-- The characters of a piece. -/
def Piece.text (b : BlockPair) : Piece → List Char
  | .opening => b.opening
  | .closing => b.closing
  | .char c => [c]

/-- The characters of several pieces. -/
def textOf (b : BlockPair) (ps : List Piece) : List Char :=
  ps.flatMap (Piece.text b)

/-- The pieces of a text. An opening delimiter is tried before a closing one, and a closing one
before a single character. -/
def pieces (b : BlockPair) (text : List Char) : List Piece :=
  match text with
  | [] => []
  | c :: cs =>
    if b.opening.isPrefixOf (c :: cs) then .opening :: b.pieces (cs.drop (b.opening.length - 1))
    else if b.closing.isPrefixOf (c :: cs) then
      .closing :: b.pieces (cs.drop (b.closing.length - 1))
    else .char c :: b.pieces cs
termination_by text.length
decreasing_by all_goals (simp only [List.length_cons, List.length_drop]; omega)

/-- The number of closing delimiters among the pieces, less that of the opening ones. -/
def excess (ps : List Piece) : ℤ :=
  ps.count .closing - ps.count .opening

variable {b : BlockPair} {text token : List Char} {ps before after : List Piece} {piece : Piece}

@[simp]
theorem textOf_cons : b.textOf (piece :: ps) = piece.text b ++ b.textOf ps :=
  List.flatMap_cons

@[simp]
theorem textOf_append : b.textOf (before ++ after) = b.textOf before ++ b.textOf after :=
  List.flatMap_append

@[simp]
theorem excess_nil : excess [] = 0 := rfl

@[simp]
theorem excess_opening : excess (.opening :: ps) = excess ps - 1 := by
  simp only [excess, List.count_cons_self, List.count_cons_of_ne, ne_eq, reduceCtorEq,
    not_false_eq_true]
  omega

@[simp]
theorem excess_closing : excess (.closing :: ps) = excess ps + 1 := by
  simp only [excess, List.count_cons_self, List.count_cons_of_ne, ne_eq, reduceCtorEq,
    not_false_eq_true]
  omega

@[simp]
theorem excess_char {c : Char} : excess (.char c :: ps) = excess ps := by
  simp [excess]

theorem excess_append : excess (before ++ after) = excess before + excess after := by
  simp only [excess, List.count_append]
  omega

/-- The pieces stand one after the other in the text, each where no piece that is tried before it
stands. -/
inductive Cut (b : BlockPair) : List Char → List Piece → Prop where
  | nil : b.Cut [] []
  | opening {rest : List Char} {ps : List Piece} : b.Cut rest ps →
      b.Cut (b.opening ++ rest) (.opening :: ps)
  | closing {rest : List Char} {ps : List Piece} : ¬ b.opening <+: b.closing ++ rest →
      b.Cut rest ps → b.Cut (b.closing ++ rest) (.closing :: ps)
  | char {c : Char} {rest : List Char} {ps : List Piece} : ¬ b.opening <+: c :: rest →
      ¬ b.closing <+: c :: rest → b.Cut rest ps → b.Cut (c :: rest) (.char c :: ps)

/-- A delimiter in front of a text is what is left out when the rest is taken behind it. -/
theorem eq_append_drop {c : Char} {cs : List Char} (hne : token ≠ [])
    (h : token <+: c :: cs) : c :: cs = token ++ cs.drop (token.length - 1) := by
  obtain ⟨a, as, rfl⟩ := List.exists_cons_of_ne_nil hne
  obtain ⟨rest, hrest⟩ := h
  cases hrest
  simp

/-- The pieces of a text stand in it. -/
theorem cut_pieces (usable : b.Usable) (text : List Char) : b.Cut text (b.pieces text) := by
  fun_induction b.pieces text with
  | case1 => exact .nil
  | case2 c cs hopen ih =>
    rw [eq_append_drop usable.opening_ne_nil (List.isPrefixOf_iff_prefix.1 hopen)]
    exact .opening ih
  | case3 c cs hopen hclose ih =>
    rw [List.isPrefixOf_iff_prefix] at hopen
    have hcs := eq_append_drop usable.closing_ne_nil (List.isPrefixOf_iff_prefix.1 hclose)
    rw [hcs] at hopen ⊢
    exact .closing hopen ih
  | case4 c cs hopen hclose ih =>
    rw [List.isPrefixOf_iff_prefix] at hopen hclose
    exact .char hopen hclose ih

/-- The pieces make up the text. -/
theorem Cut.textOf_eq (h : b.Cut text ps) : b.textOf ps = text := by
  induction h with
  | nil => rfl
  | opening _ ih | closing _ _ ih | char _ _ _ ih =>
    rw [textOf_cons, ih]
    rfl

/-- What is left when some pieces are taken away is cut as before. -/
theorem Cut.right (h : b.Cut text (before ++ after)) : b.Cut (b.textOf after) after := by
  induction before generalizing text with
  | nil => rwa [List.nil_append, ← h.textOf_eq] at h
  | cons piece before ih =>
    cases h with
    | opening h | closing _ h | char _ _ h => exact ih h

end BlockPair

namespace Profile

open BlockPair

variable {p : Profile} {pair depth : Nat} {b : BlockPair} {text : List Char}
  {ps before after : List Piece}

/-- As long as the excess is not the depth, each piece is a step inside the comment. -/
theorem crosses_pieces (valid : p.Valid) (hb : p.blockComments[pair]? = some b)
    (nestable : b.nestable = true) (hcut : b.Cut text (before ++ after)) (deep : 1 ≤ depth)
    (room : depth + Text.byteLength text < 2 ^ 32)
    (hopen : ∀ m ≤ before.length, excess (before.take m) ≠ depth) :
    ∃ remaining : Nat, 1 ≤ remaining ∧ (remaining : ℤ) = depth - excess before ∧
      p.Crosses .blockComment (b.textOf after) (.inBlock pair depth) (b.textOf before)
        (.inBlock pair remaining) := by
  have usable := valid.block hb
  induction before generalizing text depth with
  | nil => exact ⟨depth, deep, by simp, .nil⟩
  | cons piece before ih =>
    have htail : ∀ m ≤ before.length, excess (piece :: before.take m) ≠ depth :=
      fun m hm => hopen (m + 1) (Nat.succ_le_succ hm)
    rw [List.cons_append] at hcut
    cases hcut with
    | @opening rest _ hrest =>
      have hbytes := Text.byteLength_pos usable.opening_ne_nil
      rw [Text.byteLength_append] at room
      have hdepth : depth < maxDepth := by
        unfold maxDepth
        omega
      simp only [excess_opening] at htail ⊢
      obtain ⟨remaining, hone, hremaining, hcrosses⟩ := ih hrest (Nat.le_add_left 1 depth)
        (by omega) (fun m hm => by have := htail m hm; omega)
      refine ⟨remaining, hone, by omega, ?_⟩
      rw [textOf_cons]
      exact .step usable.opening_ne_nil (.nest hb nestable (List.prefix_append _ _) hdepth) hcrosses
    | @closing rest _ hfirst hrest =>
      rw [Text.byteLength_append] at room
      simp only [excess_closing] at htail ⊢
      -- A closing delimiter at depth one would make the excess the depth.
      have hdeep : 1 < depth := by
        have := htail 0 (Nat.zero_le _)
        simp only [List.take_zero, excess_nil] at this
        omega
      obtain ⟨remaining, hone, hremaining, hcrosses⟩ := ih hrest (Nat.le_sub_one_of_lt hdeep)
        (by omega) (fun m hm => by have := htail m hm; omega)
      refine ⟨remaining, hone, by omega, ?_⟩
      rw [textOf_cons]
      rw [← hrest.textOf_eq, textOf_append] at hfirst
      exact .step usable.closing_ne_nil
        (.unnest hb (fun h => hfirst h.2) (List.prefix_append _ _) hdeep) hcrosses
    | @char c rest _ hfirst hsecond hrest =>
      have hbytes : Text.byteLength rest ≤ Text.byteLength (c :: rest) :=
        Nat.le_add_left _ _
      simp only [excess_char] at htail ⊢
      obtain ⟨remaining, hone, hremaining, hcrosses⟩ := ih hrest deep (by omega) htail
      refine ⟨remaining, hone, hremaining, ?_⟩
      rw [← hrest.textOf_eq, textOf_append] at hfirst hsecond
      exact .cons (.inBlock hb (fun h => hfirst h.2) hsecond) hcrosses

/-- A first number of pieces with some excess ends with a piece. -/
theorem exists_last_piece {n : Nat} (deep : 1 ≤ depth) (hends : excess (ps.take n) = depth)
    (hfirst : ∀ m < n, excess (ps.take m) ≠ depth) :
    ∃ before piece after, ps = before ++ piece :: after ∧ n = before.length + 1 := by
  cases n with
  | zero =>
    simp only [List.take_zero, excess_nil] at hends
    omega
  | succ k =>
    have hk : k < ps.length := by
      by_contra hlong
      refine hfirst k (Nat.lt_succ_self k) ?_
      rwa [List.take_of_length_le (by omega)] at hends ⊢
    refine ⟨ps.take k, ps[k], ps.drop (k + 1), ?_, ?_⟩
    · rw [← List.drop_eq_getElem_cons hk, List.take_append_drop]
    · rw [List.length_take_of_le (Nat.le_of_lt hk)]

/-- A closing delimiter closes a comment with nothing nested in it for good, where no opening
delimiter stands. -/
theorem closeBlock_of_cut (hb : p.blockComments[pair]? = some b)
    (hcut : b.Cut text (.closing :: after)) :
    p.Moves (b.closing ++ b.textOf after) (.inBlock pair 1)
      ⟨b.closing.length, .blockComment, .normal, true⟩ := by
  cases hcut with
  | closing hfirst hrest =>
    rw [← hrest.textOf_eq] at hfirst
    exact .closeBlock hb (fun h => hfirst h.2) (List.prefix_append _ _) (Nat.lt_irrefl 1)

/-- A comment that is closed on the line. -/
theorem exists_scanLine_of_excess {line : List Char} {n : Nat} (valid : p.Valid)
    (hb : p.blockComments[pair]? = some b) (nestable : b.nestable = true) (deep : 1 ≤ depth)
    (room : depth + Text.byteLength line < 2 ^ 32)
    (hends : excess ((b.pieces line).take n) = depth)
    (hfirst : ∀ m < n, excess ((b.pieces line).take m) ≠ depth) :
    ∃ rest, p.scanLine .normal (b.textOf ((b.pieces line).drop n)) = .ok rest ∧
      p.scanLine (.inBlock pair depth) line = .ok (rest.behind
        ((b.textOf ((b.pieces line).take n)).map (·, .blockComment)) true) := by
  have hcut := cut_pieces (valid.block hb) line
  obtain ⟨before, piece, after, hps, rfl⟩ := exists_last_piece deep hends hfirst
  rw [hps] at hcut hends hfirst ⊢
  rw [List.append_cons, List.take_left' (by simp)] at hends ⊢
  rw [List.drop_left' (by simp)]
  have hopen : ∀ m ≤ before.length, excess (before.take m) ≠ depth := by
    intro m hm
    have := hfirst m (Nat.lt_succ_of_le hm)
    rwa [List.take_append_of_le_length hm] at this
  obtain ⟨remaining, hone, hremaining, hcrosses⟩ :=
    crosses_pieces valid hb nestable hcut deep room hopen
  rw [excess_append] at hends
  -- One is left to be closed at least, so only a closing delimiter comes to the excess.
  cases piece with
  | opening =>
    simp only [excess_opening, excess_nil] at hends
    omega
  | char c =>
    simp only [excess_char, excess_nil] at hends
    omega
  | closing =>
    simp only [excess_closing, excess_nil] at hends
    obtain rfl : remaining = 1 := by omega
    have hclosing : b.textOf (.closing :: after) = b.closing ++ b.textOf after := textOf_cons
    have hinside : b.textOf (before ++ [.closing]) = b.textOf before ++ b.closing := by
      simp [textOf, Piece.text]
    have hline : line = b.textOf before ++ (b.closing ++ b.textOf after) := by
      rw [← hcut.textOf_eq, textOf_append, hclosing]
    have hsuffix : b.textOf after <:+ line :=
      ⟨b.textOf before ++ b.closing, by rw [hline, List.append_assoc]⟩
    obtain ⟨rest, hrest⟩ := exists_scanLine_of_suffix valid hsuffix (by omega)
    rw [hclosing] at hcrosses
    have hexit := hcrosses.scanLine_of_exit valid (valid.block hb).closing_ne_nil
      (closeBlock_of_cut hb hcut.right) hrest
    rw [← hline, ← hinside] at hexit
    exact ⟨rest, hrest, hexit⟩

/-- A comment that is not closed on the line. -/
theorem exists_scanLine_of_excess_ne {line : List Char} (valid : p.Valid)
    (hb : p.blockComments[pair]? = some b) (nestable : b.nestable = true) (deep : 1 ≤ depth)
    (room : depth + Text.byteLength line < 2 ^ 32)
    (hnever : ∀ n, excess ((b.pieces line).take n) ≠ depth) :
    ∃ remaining : Nat, 1 ≤ remaining ∧ (remaining : ℤ) = depth - excess (b.pieces line) ∧
      p.scanLine (.inBlock pair depth) line =
        .ok ⟨line.map (·, .blockComment), .inBlock pair remaining, false, false⟩ := by
  have hcut := cut_pieces (valid.block hb) line
  have htext := hcut.textOf_eq
  rw [← List.append_nil (b.pieces line)] at hcut
  obtain ⟨remaining, hone, hremaining, hcrosses⟩ :=
    crosses_pieces valid hb nestable hcut deep room fun m _ => hnever m
  rw [htext] at hcrosses
  exact ⟨remaining, hone, hremaining, hcrosses.scanLine_of_ends valid .inBlock⟩

/-- Where a nestable comment ends. The line is cut into pieces. If some number of pieces is the
first up to which the closing delimiters are `depth` more than the opening ones, these pieces are
comment, they close it for good, and the other pieces are scanned as if they stood alone. If there
is no such number, the whole line is comment, and its excess is taken off the depth. -/
theorem scanLine_nested (p : Profile) (pair depth : Nat) (b : BlockPair) (line : List Char)
    (valid : p.Valid) (hb : p.blockComments[pair]? = some b) (nestable : b.nestable = true)
    (deep : 1 ≤ depth) (room : depth + Text.byteLength line < 2 ^ 32) :
    b.textOf (b.pieces line) = line ∧
    ∃ scanned, p.scanLine (.inBlock pair depth) line = .ok scanned ∧
      (∀ n, excess ((b.pieces line).take n) = depth →
        (∀ m < n, excess ((b.pieces line).take m) ≠ depth) →
        ∃ rest, p.scanLine .normal (b.textOf ((b.pieces line).drop n)) = .ok rest ∧
          scanned = rest.behind
            ((b.textOf ((b.pieces line).take n)).map (·, .blockComment)) true) ∧
      ((∀ n, excess ((b.pieces line).take n) ≠ depth) →
        ∃ remaining : Nat, 1 ≤ remaining ∧ (remaining : ℤ) = depth - excess (b.pieces line) ∧
          scanned = ⟨line.map (·, .blockComment), .inBlock pair remaining, false, false⟩) := by
  have hrange : ScanState.InRange p (.inBlock pair depth) := (List.getElem?_eq_some_iff.1 hb).1
  obtain ⟨scanned, hscan⟩ : ∃ scanned, p.scanLine (.inBlock pair depth) line = .ok scanned :=
    exists_scanLine valid hrange room
  refine ⟨(cut_pieces (valid.block hb) line).textOf_eq, scanned, hscan, fun n hends hfirst => ?_,
    fun hnever => ?_⟩
  · obtain ⟨rest, hrest, hline⟩ :=
      exists_scanLine_of_excess valid hb nestable deep room hends hfirst
    exact ⟨rest, hrest, Except.ok.inj (hscan.symm.trans hline)⟩
  · obtain ⟨remaining, hone, hremaining, hline⟩ :=
      exists_scanLine_of_excess_ne valid hb nestable deep room hnever
    exact ⟨remaining, hone, hremaining, Except.ok.inj (hscan.symm.trans hline)⟩

/-- Two comments are open. The first line opens a third one with a delimiter that overlaps a closing
one, and closes all three in front of a string. The second line closes one and opens one. -/
theorem scanLine_nested_overlapping :
    sample.Valid ∧ (∃ rest, sample.scanLine .normal " \"y\"".toList = .ok rest ∧
      sample.scanLine (.inBlock 1 2) "(*) *) x *)*) \"y\"".toList =
        .ok (rest.behind ("(*) *) x *)*)".toList.map (·, .blockComment)) true)) ∧
      sample.scanLine (.inBlock 1 2) "*) (* z".toList =
        .ok ⟨"*) (* z".toList.map (·, .blockComment), .inBlock 1 2, false, false⟩ := by
  have hpieces : pieces ⟨['(', '*'], ['*', ')'], true⟩ "(*) *) x *)*) \"y\"".toList =
      [.opening, .char ')', .char ' ', .closing, .char ' ', .char 'x', .char ' ', .closing,
        .closing, .char ' ', .char '"', .char 'y', .char '"'] := by cbv
  have hpieces' : pieces ⟨['(', '*'], ['*', ')'], true⟩ "*) (* z".toList =
      [.closing, .char ' ', .opening, .char ' ', .char 'z'] := by cbv
  refine ⟨sample_valid, ?_, ?_⟩
  · obtain ⟨-, scanned, hscan, hends, -⟩ := scanLine_nested sample 1 2
      ⟨['(', '*'], ['*', ')'], true⟩ "(*) *) x *)*) \"y\"".toList sample_valid rfl rfl (by decide)
      (by decide)
    rw [hpieces] at hends
    obtain ⟨rest, hrest, rfl⟩ := hends 9 (by decide) (by decide)
    exact ⟨rest, hrest, hscan⟩
  · obtain ⟨-, scanned, hscan, -, hnever⟩ := scanLine_nested sample 1 2
      ⟨['(', '*'], ['*', ')'], true⟩ "*) (* z".toList sample_valid rfl rfl (by decide) (by decide)
    rw [hpieces'] at hnever
    have hshort : ∀ n < 5, excess ([.closing, .char ' ', .opening, .char ' ', .char 'z'].take n) ≠
        (2 : ℕ) := by decide
    obtain ⟨remaining, -, hremaining, rfl⟩ := hnever fun n => by
      rcases Nat.lt_or_ge n 5 with hn | hn
      · exact hshort n hn
      · rw [List.take_of_length_le hn]
        decide
    obtain rfl : remaining = 2 := by
      simp only [excess_opening, excess_closing, excess_char, excess_nil] at hremaining
      omega
    exact hscan

end Profile

end SourceTally
