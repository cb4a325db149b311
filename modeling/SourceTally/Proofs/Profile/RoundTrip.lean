import SourceTally.Profile.Declaration
import SourceTally.Proofs.Text.Lowered

/-!
# Profiles and their declarations

A declaration describes a profile (`Declaration.Describes`) by what it says and by what it leaves
out, and it describes one just if every escape in it is one that can be declared
(`Declaration.existsUnique_describes_iff`). Turning a declaration into a profile gives the profile
that it describes, if that breaks no rule (`Declaration.toProfile_eq_ok_iff`).

The declaration that writes a profile down describes the profile again when its extensions are in
lower case (`Profile.describes_declaration`). They are in every profile that is put together by
adding one thing after the other (`Profile.Assembled`) and in every declared one, since lowering them
twice is lowering them once. `Declaration.toProfile_round_trip` says what follows for both.
-/

namespace SourceTally

/-! ## Escapes -/

namespace Escape

/-- How an escape is declared: not at all, by a word, or by its character. -/
inductive DeclaredBy : Option String → Escape → Prop where
  | absent : DeclaredBy Option.none .none
  | none : DeclaredBy (some "none") .none
  | doubled : DeclaredBy (some "double") .doubled
  | char (c : Char) : DeclaredBy (some c.toString) (.char c)

variable {word : String} {e : Escape}

theorem toList_eq_singleton_iff {c : Char} : word.toList = [c] ↔ word = c.toString := by
  rw [← String.toList_inj]
  simp

theorem length_eq_one_iff : word.length = 1 ↔ ∃ c : Char, word = c.toString := by
  rw [← String.length_toList, List.length_eq_one_iff]
  exact exists_congr fun c => toList_eq_singleton_iff

/-- The words that are read are those that declare an escape. -/
theorem ofWord_eq_ok_iff : ofWord word = .ok e ↔ DeclaredBy (some word) e := by
  constructor
  · intro h
    unfold ofWord at h
    split at h
    next hnone =>
      cases h
      exact hnone ▸ .none
    split at h
    next hdouble =>
      cases h
      exact hdouble ▸ .doubled
    split at h
    next c hc =>
      cases h
      exact toList_eq_singleton_iff.1 hc ▸ .char c
    · cases h
  · intro h
    cases h with
    | none | doubled => rfl
    | char c =>
      -- The other words have more than one character.
      have hne : ∀ other : String, other.length ≠ 1 → c.toString ≠ other := by
        rintro other hlength rfl
        exact hlength (length_eq_one_iff.2 ⟨c, rfl⟩)
      rw [ofWord, if_neg (hne _ (by decide)), if_neg (hne _ (by decide)),
        toList_eq_singleton_iff.2 rfl]

/-- An escape that is left out is read as none. -/
theorem ofWord_getD_eq_ok_iff {word : Option String} :
    ofWord (word.getD "none") = .ok e ↔ DeclaredBy word e := by
  cases word with
  | some word => exact ofWord_eq_ok_iff
  | none =>
    constructor
    · intro h
      cases h
      exact .absent
    · intro h
      cases h
      rfl

/-- The escape is left out, or it is one of the words or a single character. -/
def Known (word : Option String) : Prop :=
  word = Option.none ∨ word = some "none" ∨ word = some "double" ∨
    ∃ text, word = some text ∧ text.length = 1

theorem exists_declaredBy_iff {word : Option String} : (∃ e, DeclaredBy word e) ↔ Known word := by
  constructor
  · rintro ⟨e, h⟩
    cases h with
    | absent => exact .inl rfl
    | none => exact .inr (.inl rfl)
    | doubled => exact .inr (.inr (.inl rfl))
    | char c => exact .inr (.inr (.inr ⟨_, rfl, length_eq_one_iff.2 ⟨c, rfl⟩⟩))
  · rintro (rfl | rfl | rfl | ⟨text, rfl, hlength⟩)
    · exact ⟨_, .absent⟩
    · exact ⟨_, .none⟩
    · exact ⟨_, .doubled⟩
    · obtain ⟨c, rfl⟩ := length_eq_one_iff.1 hlength
      exact ⟨_, .char c⟩

/-- The word of an escape declares it. -/
theorem declaredBy_word (e : Escape) : DeclaredBy (some e.word) e := by
  cases e with
  | none => exact .none
  | char c => exact .char c
  | doubled => exact .doubled

end Escape

/-! ## Strings -/

namespace StringDeclaration

variable {s : StringDeclaration} {pair : StringPair}

/-- The declaration describes the string. -/
structure Describes (s : StringDeclaration) (pair : StringPair) : Prop where
  opening : pair.opening = s.opening.toList
  /-- The closing delimiter is the opening one if it is left out. -/
  closing : pair.closing = (s.closing.getD s.opening).toList
  escape : Escape.DeclaredBy s.escape pair.escape
  multiline : pair.multiline = s.multiline

theorem toPair_eq_ok_iff : s.toPair = .ok pair ↔ s.Describes pair := by
  simp only [toPair, bind_eq_ok_iff, Escape.ofWord_getD_eq_ok_iff]
  constructor
  · rintro ⟨escape, hescape, h⟩
    cases h
    exact ⟨rfl, rfl, hescape, rfl⟩
  · rintro ⟨hopening, hclosing, hescape, hmultiline⟩
    refine ⟨pair.escape, hescape, ?_⟩
    rw [← hopening, ← hclosing, ← hmultiline]
    rfl

/-- A string is described just if its escape can be declared. -/
theorem exists_describes_iff : (∃ pair, s.Describes pair) ↔ Escape.Known s.escape := by
  rw [← Escape.exists_declaredBy_iff]
  constructor
  · rintro ⟨pair, hpair⟩
    exact ⟨pair.escape, hpair.escape⟩
  · rintro ⟨e, he⟩
    exact ⟨⟨_, _, e, _⟩, rfl, rfl, he, rfl⟩

/-- What a string is declared as describes it. -/
theorem describes_declaration (pair : StringPair) : pair.declaration.Describes pair where
  opening := String.toList_ofList.symm
  closing := String.toList_ofList.symm
  escape := pair.escape.declaredBy_word
  multiline := rfl

end StringDeclaration

/-! ## Profiles -/

theorem BlockPair.toPair_declaration (b : BlockPair) : b.declaration.toPair = b := by
  rw [BlockPair.declaration, BlockDeclaration.toPair, String.toList_ofList, String.toList_ofList]

namespace Declaration

variable {d : Declaration} {p q : Profile}

/-- The declaration describes the profile. -/
structure Describes (d : Declaration) (p : Profile) : Prop where
  id : p.id = d.id
  /-- The name is the id if it is left out. -/
  name : p.name = d.name.getD d.id
  extensions : p.extensions = d.extensions.map Text.lower
  fileNames : p.fileNames = d.fileNames
  lineComments : p.lineComments = d.lineComments.map String.toList
  blockComments : p.blockComments = d.blockComments.map BlockDeclaration.toPair
  strings : List.Forall₂ StringDeclaration.Describes d.strings p.strings

/-- A declaration is turned into the profile that it describes, if that breaks no rule. -/
theorem toProfile_eq_ok_iff : d.toProfile = .ok p ↔ d.Describes p ∧ p.Valid := by
  simp only [toProfile, bind_eq_ok_iff, mapM_eq_ok_iff, StringDeclaration.toPair_eq_ok_iff]
  constructor
  · rintro ⟨strings, hstrings, h⟩
    split at h
    next hvalid =>
      cases h
      exact ⟨⟨rfl, rfl, rfl, rfl, rfl, rfl, hstrings⟩, hvalid⟩
    · cases h
  · rintro ⟨⟨hid, hname, hextensions, hfiles, hlines, hblocks, hstrings⟩, hvalid⟩
    obtain ⟨id, name, extensions, fileNames, lineComments, blockComments, strings⟩ := p
    subst hid hname hextensions hfiles hlines hblocks
    refine ⟨strings, hstrings, ?_⟩
    rw [Profile.withExtensions, List.nil_append, hvalid]
    rfl

/-- A declaration describes one profile at most. -/
theorem Describes.unique (hp : d.Describes p) (hq : d.Describes q) : p = q := by
  have hstrings : p.strings = q.strings := by
    have hmap := hp.strings.imp fun _ _ => StringDeclaration.toPair_eq_ok_iff.2
    have hmap' := hq.strings.imp fun _ _ => StringDeclaration.toPair_eq_ok_iff.2
    exact Except.ok.inj ((mapM_eq_ok_iff.2 hmap).symm.trans (mapM_eq_ok_iff.2 hmap'))
  exact (Profile.mk.injEq ..).mpr ⟨hp.id.trans hq.id.symm, hp.name.trans hq.name.symm,
    hp.extensions.trans hq.extensions.symm, hp.fileNames.trans hq.fileNames.symm,
    hp.lineComments.trans hq.lineComments.symm, hp.blockComments.trans hq.blockComments.symm,
    hstrings⟩

/-- A declaration describes a profile just if all its escapes can be declared. -/
theorem existsUnique_describes_iff :
    (∃! p, d.Describes p) ↔ ∀ s ∈ d.strings, Escape.Known s.escape := by
  simp only [← StringDeclaration.exists_describes_iff, ← StringDeclaration.toPair_eq_ok_iff,
    ← exists_mapM_eq_ok_iff, mapM_eq_ok_iff]
  constructor
  · rintro ⟨p, hp, -⟩
    exact ⟨p.strings, hp.strings.imp fun _ _ => StringDeclaration.toPair_eq_ok_iff.2⟩
  · rintro ⟨strings, hstrings⟩
    have hexists : ∃ p, d.Describes p :=
      ⟨⟨_, _, _, _, _, _, strings⟩, rfl, rfl, rfl, rfl, rfl, rfl,
        hstrings.imp fun _ _ => StringDeclaration.toPair_eq_ok_iff.1⟩
    exact existsUnique_of_exists_of_unique hexists fun _ _ => Describes.unique

end Declaration

namespace Profile

variable {p : Profile}

/-- A profile whose extensions are in lower case is described by its declaration. -/
theorem describes_declaration (h : ∀ e ∈ p.extensions, Text.lower e = e) :
    p.declaration.Describes p where
  id := rfl
  name := rfl
  extensions := ((List.map_congr_left h).trans (List.map_id _)).symm
  fileNames := rfl
  lineComments := by
    simp only [declaration, List.map_map, Function.comp_def, String.toList_ofList, List.map_id']
  blockComments := by
    simp only [declaration, List.map_map, Function.comp_def, BlockPair.toPair_declaration,
      List.map_id']
  strings := by
    rw [declaration, List.forall₂_map_left_iff, List.forall₂_same]
    exact fun s _ => StringDeclaration.describes_declaration s

/-- A valid profile whose extensions are in lower case is what its declaration is turned into. -/
theorem toProfile_declaration (h : ∀ e ∈ p.extensions, Text.lower e = e) (valid : p.Valid) :
    p.declaration.toProfile = .ok p :=
  Declaration.toProfile_eq_ok_iff.2 ⟨describes_declaration h, valid⟩

/-- The profiles that are put together from an id and a name by adding one thing after the other. -/
inductive Assembled : Profile → Prop where
  | bare (id name : String) : Assembled { id := id, name := name }
  | extensions {p : Profile} (es : List String) : Assembled p → Assembled (p.withExtensions es)
  | fileName {p : Profile} (name : String) :
      Assembled p → Assembled { p with fileNames := p.fileNames ++ [name] }
  | lineComment {p : Profile} (token : Token) :
      Assembled p → Assembled { p with lineComments := p.lineComments ++ [token] }
  | blockComment {p : Profile} (b : BlockPair) :
      Assembled p → Assembled { p with blockComments := p.blockComments ++ [b] }
  | string {p : Profile} (s : StringPair) :
      Assembled p → Assembled { p with strings := p.strings ++ [s] }

/-- Extensions are in lower case however a profile is put together. -/
theorem Assembled.lower_extension (h : p.Assembled) : ∀ e ∈ p.extensions, Text.lower e = e := by
  induction h with
  | bare => exact fun e he => absurd he List.not_mem_nil
  | extensions es _ ih =>
    refine List.forall_mem_append.2 ⟨ih, List.forall_mem_map.2 fun e _ => Text.lower_lower e⟩
  | fileName _ _ ih | lineComment _ _ ih | blockComment _ _ ih | string _ _ ih => exact ih

end Profile

namespace Declaration

/-- Extensions of a described profile are in lower case. -/
theorem Describes.lower_extension {d : Declaration} {p : Profile} (h : d.Describes p) :
    ∀ e ∈ p.extensions, Text.lower e = e := by
  rw [h.extensions]
  exact List.forall_mem_map.2 fun e _ => Text.lower_lower e

/-- Writing profiles down and reading them back. A valid profile, however it is put together, is what
its declaration is turned into. Any declaration is turned into a profile just if all its escapes can
be declared and the profile that it then describes breaks no rule. It is turned into the profile that
it describes, and writing this down gives another declaration of the same profile. -/
theorem toProfile_round_trip :
    (∀ p : Profile, p.Assembled → p.Valid → p.declaration.toProfile = .ok p) ∧
      ∀ d : Declaration,
        ((∃ p, d.toProfile = .ok p) ↔
          (∀ s ∈ d.strings, Escape.Known s.escape) ∧ ∀ p, d.Describes p → p.Valid) ∧
        ((∃! p, d.Describes p) ↔ ∀ s ∈ d.strings, Escape.Known s.escape) ∧
        ∀ p, d.toProfile = .ok p → d.Describes p ∧ p.declaration.toProfile = .ok p := by
  refine ⟨fun p assembled valid => Profile.toProfile_declaration assembled.lower_extension valid,
    fun d => ⟨?_, existsUnique_describes_iff, fun p h => ?_⟩⟩
  · rw [← existsUnique_describes_iff]
    constructor
    · rintro ⟨p, h⟩
      obtain ⟨hp, valid⟩ := toProfile_eq_ok_iff.1 h
      exact ⟨⟨p, hp, fun q hq => hq.unique hp⟩, fun q hq => hp.unique hq ▸ valid⟩
    · rintro ⟨⟨p, hp, -⟩, valid⟩
      exact ⟨p, toProfile_eq_ok_iff.2 ⟨hp, valid p hp⟩⟩
  · obtain ⟨hp, valid⟩ := toProfile_eq_ok_iff.1 h
    exact ⟨hp, Profile.toProfile_declaration hp.lower_extension valid⟩

/-- A profile with an extension in capitals, a name of its own, a string that is escaped by a letter
that a word begins with, and one whose closing delimiter is written twice. -/
def capitals : Profile :=
  { Profile.withExtensions { id := "q", name := "Q" } ["ΑΣ", "Q.İ"] with
    strings := [⟨['"'], ['"'], .char 'n', false⟩, ⟨['$'], ['$'], .doubled, true⟩] }

theorem toProfile_round_trip_capitals :
    capitals.Assembled ∧ capitals.Valid ∧ capitals.extensions = ["ας", "q.i\u0307"] ∧
      capitals.declaration.toProfile = .ok capitals := by
  have assembled : capitals.Assembled :=
    .string ⟨['$'], ['$'], .doubled, true⟩ (.string ⟨['"'], ['"'], .char 'n', false⟩
      (.extensions ["ΑΣ", "Q.İ"] (.bare "q" "Q")))
  have valid : capitals.Valid := by decide +kernel
  exact ⟨assembled, valid, by decide +kernel, toProfile_round_trip.1 capitals assembled valid⟩

end Declaration

end SourceTally
