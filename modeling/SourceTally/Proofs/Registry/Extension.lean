import SourceTally.Proofs.FileTree.Spelling
import SourceTally.Proofs.Profile.RoundTrip
import SourceTally.Proofs.Registry.Resolve
import SourceTally.Proofs.Text.Lowercase

/-!
# Extensions in the letter case that they are given in

A profile keeps its extensions in lower case, and a file is looked up by its name in lower case. So a
file whose name ends in an extension as it was given finds a profile, if the name in lower case ends
in the extension in lower case. Where a sigma is lowered in another way inside the name
(`Text.shiftsSigma`), it does not, and the extension is of no use for that name: the look-up then
depends on what else is claimed. `Registry.resolvePath_given_iff` says so of every profile right
after it is registered.
-/

namespace SourceTally

/-! ## Given extensions -/

namespace Profile

/-- The extension was given to the profile in the letter case that it has here, or to the declaration
that the profile is made from. -/
inductive Given : Profile → String → Prop where
  | built (bare : Profile) {extensions : List String} {extension : String} :
      extension ∈ extensions → Given (bare.withExtensions extensions) extension
  | declared {d : Declaration} {p : Profile} {extension : String} :
      d.toProfile = .ok p → extension ∈ d.extensions → Given p extension

variable {p : Profile} {extension : String}

/-- The profile has the extension in lower case. -/
theorem Given.lower_mem (h : p.Given extension) : Text.lower extension ∈ p.extensions := by
  cases h with
  | built bare hmem => exact List.mem_append_right _ (List.mem_map_of_mem hmem)
  | declared hd hmem =>
    obtain ⟨hdescribes, -⟩ := Declaration.toProfile_eq_ok_iff.1 hd
    rw [hdescribes.extensions]
    exact List.mem_map_of_mem hmem

/-- The profile claims the name, or an extension of it of `size` characters or more. -/
def Answers (p : Profile) (low : String) (size : Nat) : Prop :=
  low ∈ p.fileNameKeys ∨
    ∃ e ∈ p.extensions, '.' :: e.toList <:+ low.toList ∧ size ≤ e.length

end Profile

/-! ## Names without a slash -/

namespace Path

/-- A text without a slash is a file name, unless it is empty or made up of one or two dots. -/
theorem fileName?_of_notMem {name : String} (hslash : '/' ∉ name.toList) (hne : name.toList ≠ [])
    (hdot : name.toList ≠ ['.']) (hdots : name.toList ≠ ['.', '.']) :
    (ofText name).fileName? = some (.ofText name) := by
  have hsplit : Text.split slash (ofText name).bytes = [(ofText name).bytes] := by
    rw [ofText, Text.split_encode, Text.split_of_notMem hslash, List.map_singleton]
  have hother (text : List Char) (h : name.toList ≠ text) :
      (ofText name).bytes ≠ Text.encode text := mt Text.encode_inj.1 h
  have hne : (ofText name).bytes ≠ [] := hother [] hne
  have hdot : (ofText name).bytes ≠ [dot] := hother ['.'] hdot
  have hdots : (ofText name).bytes ≠ [dot, dot] := hother ['.', '.'] hdots
  have hcomponents : (ofText name).components = [.name (.ofText name)] := by
    rw [components_of_split hne hsplit]
    simp only [firstComponent?, Component.ofPiece?, hne, hdot, hdots]
    rfl
  rw [fileName?, hcomponents]
  rfl

/-- A stem with an extension behind a dot is a file name. -/
theorem fileName?_dotted {stem extension : String} (hstem : '/' ∉ stem.toList)
    (hextension : '/' ∉ extension.toList) (hne : extension.toList ≠ [])
    (hdot : extension.toList ≠ ['.']) :
    (ofText (stem ++ "." ++ extension)).fileName? = some (.ofText (stem ++ "." ++ extension)) := by
  have hname : (stem ++ "." ++ extension).toList = stem.toList ++ '.' :: extension.toList := by simp
  obtain ⟨c, cs, hcs⟩ := List.exists_cons_of_ne_nil hne
  refine fileName?_of_notMem ?_ ?_ ?_ ?_
  · rw [hname, List.mem_append, List.mem_cons]
    rintro (h | h | h)
    · exact hstem h
    · exact absurd h (by decide)
    · exact hextension h
  · simp [hname]
  · -- The dot in the middle and a character of the extension are two characters.
    intro h
    have hlength := congrArg List.length h
    simp [hname, hcs] at hlength
    omega
  · intro h
    rw [hname] at h
    cases hstem' : stem.toList with
    | nil =>
      rw [hstem', List.nil_append, List.cons.injEq] at h
      exact hdot h.2
    | cons a as =>
      have hlength := congrArg List.length h
      simp [hstem', hcs] at hlength
      omega

end Path

/-! ## Look-ups by an extension -/

namespace Registry

variable {r r' : Registry} {log : List Profile} {p : Profile} {old : Option Profile} {path : Path}
  {name extension stem : String}

/-- A name that is claimed, or that ends in a claimed extension, leads to a profile that claims the
name or an extension of it that is as long. -/
theorem Views.exists_answers (h : r.Views log) (hname : path.fileName? = some (.ofText name))
    {size : Nat} (hclaimed : ∃ q ∈ r.profiles, q.Answers (Text.lower name) size) :
    ∃ q, r.resolvePath path = .ok q ∧ q.Answers (Text.lower name) size := by
  have hposition := position?_eq r name
  cases hfile : r.fileNameIndex.lookup (Text.lower name) with
  | some position =>
    rw [hfile, Option.some_or] at hposition
    obtain ⟨q, hq, hkey⟩ := (h.lookup_fileNameIndex.1 hfile).has
    exact ⟨q, resolvePath_of_position? hname hposition hq, .inl hkey⟩
  | none =>
    rw [hfile, Option.none_or] at hposition
    -- No profile claims the name, so the one at hand claims an extension.
    obtain ⟨q, hq, hown | ⟨e, he, hsuffix, hsize⟩⟩ := hclaimed
    · exact absurd hown (h.lookup_fileName_eq_none_iff.1 hfile q hq)
    have hextension : ClaimedExtension r.profiles (Text.lower name) e := ⟨⟨q, hq, he⟩, hsuffix⟩
    cases hfound : r.byExtension? (Text.lower name) with
    | none => exact absurd hextension (h.byExtension?_eq_none_iff.1 hfound e)
    | some position =>
      obtain ⟨longest, hlongest, hlast⟩ := h.longest_of_byExtension? hfound
      obtain ⟨p, hp, hkey⟩ := hlast.has
      refine ⟨p, resolvePath_of_position? hname (hposition.trans hfound) hp, .inr ?_⟩
      exact ⟨longest, hkey, hlongest.suffix, hsize.trans (hlongest.longest e hextension)⟩

theorem mem_of_resolvePath (h : r.resolvePath path = .ok p) : p ∈ r.profiles := by
  rcases r.resolvePath_cases path with ⟨q, hq, hok⟩ | herror
  · cases h.symm.trans hok
    exact hq
  · cases h.symm.trans herror

/-- A profile that is registered is one of the registry's. -/
theorem mem_of_register (h : r.register p = (r', .ok old)) : p.Valid ∧ p ∈ r'.profiles := by
  obtain ⟨hvalid, ⟨-, rfl, -⟩ | ⟨position, -, -, rfl, -⟩⟩ := register_eq_ok_iff.1 h
  · exact ⟨hvalid, List.mem_append_right _ (List.mem_singleton_self p)⟩
  · exact ⟨hvalid, List.mem_append_right _ (List.mem_singleton_self p)⟩

/-- An extension that is given to a valid profile is neither empty nor a dot. -/
theorem given_ne (valid : p.Valid) (given : p.Given extension) :
    extension.toList ≠ [] ∧ extension.toList ≠ ['.'] := by
  obtain ⟨hne, hdot⟩ := valid.extension_ne given.lower_mem
  rw [Text.lower] at hne hdot
  constructor
  · intro h
    rw [h] at hne
    exact hne rfl
  · intro h
    rw [h] at hdot
    exact hdot (by decide)

/-- When a file whose name ends in an extension as it was given is found by it. Right after a profile
is registered, the file leads to a profile that claims its name or an extension of it at least as
long as the given one, unless a sigma is lowered in another way in the name than in the extension.
Then it does so only if some profile claims the name or another extension of it that is as long. -/
theorem resolvePath_given_iff (r r' : Registry) (p : Profile) (old : Option Profile)
    (stem extension : String) (built : r.Built) (registered : r.register p = (r', .ok old))
    (given : p.Given extension) (hstem : '/' ∉ stem.toList) (hextension : '/' ∉ extension.toList) :
    (∃ q, r'.resolvePath (stem ++ "." ++ extension : String) = .ok q ∧
      q.Answers (Text.lower (stem ++ "." ++ extension)) (Text.lower extension).length) ↔
    (Text.shiftsSigma stem extension = true → ∃ q ∈ r'.profiles,
      Text.lower (stem ++ "." ++ extension) ∈ q.fileNameKeys ∨
      ∃ e ∈ q.extensions, e ≠ Text.lower extension ∧
        '.' :: e.toList <:+ (Text.lower (stem ++ "." ++ extension)).toList ∧
        (Text.lower extension).length ≤ e.length) := by
  obtain ⟨log, hviews⟩ := (built.register registered).views
  obtain ⟨valid, hmem⟩ := mem_of_register registered
  obtain ⟨hne, hdot⟩ := given_ne valid given
  have hname := Path.fileName?_dotted hstem hextension hne hdot
  have hsuffix := Text.dot_lower_suffix_iff stem extension
  constructor
  · rintro ⟨q, hresolve, hanswers⟩ hshifts
    refine ⟨q, mem_of_resolvePath hresolve, hanswers.imp_right ?_⟩
    rintro ⟨e, he, hends, hsize⟩
    refine ⟨e, he, ?_, hends, hsize⟩
    rintro rfl
    cases hshifts.symm.trans (hsuffix.1 hends)
  · intro hother
    refine hviews.exists_answers hname ?_
    cases hshifts : Text.shiftsSigma stem extension with
    | false => exact ⟨p, hmem, .inr ⟨_, given.lower_mem, hsuffix.2 hshifts, Nat.le_refl _⟩⟩
    | true =>
      obtain ⟨q, hq, hclaims⟩ := hother hshifts
      refine ⟨q, hq, hclaims.imp_right ?_⟩
      rintro ⟨e, he, -, hends, hsize⟩
      exact ⟨e, he, hends, hsize⟩

/-- A language that has nothing but an extension, given in some letter case. -/
def greek (extension : String) : Profile :=
  Profile.withExtensions { id := "greek", name := "Greek" } [extension]

/-- An extension in capitals that ends in a sigma is found behind a capital letter. -/
theorem resolvePath_given_capitals :
    (greek "ΑΣ").Given "ΑΣ" ∧ (greek "ΑΣ").extensions = ["ας"] ∧
      Text.shiftsSigma "Ω" "ΑΣ" = false ∧ ∃ (r' : Registry) (q : Profile),
        register {} (greek "ΑΣ") = (r', .ok none) ∧
        r'.resolvePath ("Ω" ++ "." ++ "ΑΣ" : String) = .ok q ∧
        q.Answers (Text.lower ("Ω" ++ "." ++ "ΑΣ")) (Text.lower "ΑΣ").length := by
  have given : (greek "ΑΣ").Given "ΑΣ" := .built _ (List.mem_singleton_self _)
  have hshifts : Text.shiftsSigma "Ω" "ΑΣ" = false := by decide +kernel
  have valid : (greek "ΑΣ").Valid := by decide +kernel
  obtain ⟨r', registered⟩ : ∃ r', register {} (greek "ΑΣ") = (r', .ok none) :=
    ⟨_, register_eq_ok_iff.2 ⟨valid, .inl ⟨rfl, rfl, rfl⟩⟩⟩
  obtain ⟨q, hresolve, hanswers⟩ := (resolvePath_given_iff {} r' (greek "ΑΣ") none "Ω" "ΑΣ" ⟨[], rfl⟩
    registered given (by decide) (by decide)).2 fun h => by cases hshifts.symm.trans h
  exact ⟨given, by decide +kernel, hshifts, r', q, registered, hresolve, hanswers⟩

/-- An extension that is a capital sigma is not found behind a letter: by itself it is lowered to a
sigma that goes on, and behind the letter to one that ends the word. -/
theorem unknown_given_sigma :
    (greek "Σ").Given "Σ" ∧ ∃ r' : Registry, register {} (greek "Σ") = (r', .ok none) ∧
      r'.resolvePath "a.Σ" = .error (.unknownLanguage "a.Σ") := by
  have valid : (greek "Σ").Valid := by decide +kernel
  refine ⟨.built _ (List.mem_singleton_self _), withProfiles {} [greek "Σ"],
    register_eq_ok_iff.2 ⟨valid, .inl ⟨rfl, rfl, rfl⟩⟩, ?_⟩
  have hname : Path.fileName? "a.Σ" = some (.ofText "a.Σ") := by decide
  rw [resolvePath_of_position?_eq_none hname (by decide +kernel), Path.text_ofText]

end Registry

end SourceTally
