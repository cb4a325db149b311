import SourceTally.Proofs.FileTree.Spelling
import SourceTally.Proofs.Registry.History

/-!
# The language of a file

A file belongs to the last profile that claims its name, or else to the last one that claims the
longest claimed extension of its name. The look-up tries what follows each dot, from the left, in an
index. What follows a dot is what a name ends in behind a dot (`Registry.mem_afterDots_iff`), and it
gets shorter from one dot to the next (`Registry.pairwise_afterDots`), so the first that the index
knows is the longest that is claimed (`Registry.Views.longest_of_byExtension?`), wherever the dots
stand. With what the indexes hold after any calls, `Registry.resolvePath_of_built` says which profile
a path leads to.
-/

namespace SourceTally

/-! ## The last owner of a key -/

/-- Of the profiles that have the key, `p` is the last one. -/
def LastOwner (keys : Profile → List String) (key : String) (profiles : List Profile)
    (p : Profile) : Prop :=
  ∃ before after, profiles = before ++ p :: after ∧ key ∈ keys p ∧ ∀ q ∈ after, key ∉ keys q

section

variable {keys : Profile → List String} {key : String} {profiles : List Profile} {position : Nat}

/-- A key that some profile has is the key of a last one. -/
theorem exists_lastWith_iff :
    (∃ position, LastWith keys key profiles position) ↔ ∃ p ∈ profiles, key ∈ keys p := by
  induction profiles using List.reverseRecOn with
  | nil => simp [not_lastWith_nil]
  | append_singleton profiles p ih =>
    by_cases h : key ∈ keys p
    · simp [lastWith_concat_of_mem h, h]
    · simp only [lastWith_concat_of_notMem h, ih, List.mem_append, List.mem_singleton]
      constructor
      · rintro ⟨q, hq, hkey⟩
        exact ⟨q, .inl hq, hkey⟩
      · rintro ⟨q, hq | rfl, hkey⟩
        · exact ⟨q, hq, hkey⟩
        · exact absurd hkey h

theorem LastWith.exists_lastOwner (h : LastWith keys key profiles position) :
    ∃ p, profiles[position]? = some p ∧ LastOwner keys key profiles p := by
  obtain ⟨⟨p, hp, hkey⟩, hlast⟩ := h
  refine ⟨p, hp, profiles.take position, profiles.drop (position + 1), ?_, hkey, fun q hq => ?_⟩
  · obtain ⟨hlt, rfl⟩ := List.getElem?_eq_some_iff.1 hp
    rw [List.getElem_cons_drop, List.take_append_drop]
  · obtain ⟨i, hi⟩ := List.mem_iff_getElem?.1 hq
    rw [List.getElem?_drop] at hi
    exact hlast (position + 1 + i) q (by omega) hi

end

/-! ## Extensions of a name -/

/-- An extension of a valid profile has a character and does not begin with a dot. -/
theorem Profile.Valid.extension_ne {p : Profile} {extension : String} (valid : p.Valid)
    (h : extension ∈ p.extensions) :
    extension ≠ "" ∧ extension.toList.head? ≠ some '.' := by
  unfold Profile.Valid Profile.fault? at valid
  split at valid
  · cases valid
  · split at valid
    · cases valid
    · next hgood =>
      rw [List.any_eq_true] at hgood
      refine ⟨fun hempty => hgood ⟨extension, h, ?_⟩, fun hdot => hgood ⟨extension, h, ?_⟩⟩
      · rw [hempty]
        rfl
      · rw [hdot]
        simp

/-- Some profile claims the extension, and the name ends in it behind a dot. -/
structure ClaimedExtension (profiles : List Profile) (name extension : String) : Prop where
  claimed : ∃ p ∈ profiles, extension ∈ p.extensions
  suffix : '.' :: extension.toList <:+ name.toList

/-- No claimed extension of the name is longer. -/
structure LongestExtension (profiles : List Profile) (name extension : String) : Prop
    extends ClaimedExtension profiles name extension where
  longest : ∀ other, ClaimedExtension profiles name other → other.length ≤ extension.length

namespace Registry

variable {r : Registry} {log : List Profile} {p : Profile} {position : Nat}
  {name low extension : String} {path : Path}

/-- What follows a dot is what the text ends in behind a dot. -/
theorem mem_afterDots_iff {cs after : List Char} : after ∈ afterDots cs ↔ '.' :: after <:+ cs := by
  induction cs with
  | nil => simp [afterDots]
  | cons c cs ih =>
    rw [afterDots, List.suffix_cons_iff, ← ih]
    by_cases hdot : c = '.'
    · rw [if_pos hdot, List.mem_cons, hdot, List.cons.injEq, and_iff_right rfl]
    · rw [if_neg hdot, List.cons.injEq]
      simp [Ne.symm hdot]

/-- What follows a dot is shorter than what follows the dots before it. -/
theorem pairwise_afterDots (cs : List Char) :
    (afterDots cs).Pairwise fun before after => after.length < before.length := by
  induction cs with
  | nil => exact List.Pairwise.nil
  | cons c cs ih =>
    rw [afterDots]
    split
    · refine List.pairwise_cons.2 ⟨fun after hafter => ?_, ih⟩
      exact (mem_afterDots_iff.1 hafter).length_le
    · exact ih

/-- The extensions of a name that a look-up tries, in its order. -/
def candidates (low : String) : List String :=
  ((afterDots low.toList).filter (· ≠ [])).map String.ofList

theorem mem_candidates_iff :
    extension ∈ candidates low ↔ extension ≠ "" ∧ '.' :: extension.toList <:+ low.toList := by
  simp only [candidates, List.mem_map, List.mem_filter, mem_afterDots_iff, decide_eq_true_eq]
  constructor
  · rintro ⟨after, ⟨hsuffix, hne⟩, rfl⟩
    rw [String.toList_ofList]
    exact ⟨fun hnil => hne (by simpa using congrArg String.toList hnil), hsuffix⟩
  · rintro ⟨hne, hsuffix⟩
    refine ⟨extension.toList, ⟨hsuffix, ?_⟩, String.ofList_toList⟩
    exact fun hnil => hne (String.toList_eq_nil_iff.1 hnil)

theorem pairwise_candidates (low : String) :
    (candidates low).Pairwise fun before after => after.length < before.length := by
  refine List.pairwise_map.2 (((pairwise_afterDots low.toList).filter _).imp fun h => ?_)
  rwa [String.length_ofList, String.length_ofList]

/-! ## Look-ups -/

/-- The position of the first of the extensions that the index knows. -/
def byExtension? (r : Registry) (low : String) : Option Nat :=
  (candidates low).findSome? fun extension => r.extensionIndex.lookup extension

/-- A look-up by file name comes first, and then one for each of the extensions. -/
theorem position?_eq (r : Registry) (name : String) :
    r.position? name = (r.fileNameIndex.lookup (Text.lower name)).or
      (r.byExtension? (Text.lower name)) := by
  unfold position?
  cases hlookup : r.fileNameIndex.lookup (Text.lower name) with
  | none => simp only [hlookup, Option.none_or]; rfl
  | some position => simp only [hlookup, Option.some_or]

/-- A claimed extension of a name is tried, and the index knows it. -/
theorem Views.exists_lookup_of_claimed (h : r.Views log)
    (hclaimed : ClaimedExtension r.profiles low extension) :
    extension ∈ candidates low ∧ ∃ position, r.extensionIndex.lookup extension = some position := by
  obtain ⟨⟨p, hp, hextension⟩, hsuffix⟩ := hclaimed
  refine ⟨mem_candidates_iff.2 ⟨((h.valid_of_mem hp).extension_ne hextension).1, hsuffix⟩, ?_⟩
  simp only [h.lookup_extensionIndex]
  exact exists_lastWith_iff.2 ⟨p, hp, hextension⟩

/-- An extension that is tried and that the index knows is a claimed one. -/
theorem Views.claimed_of_lookup (h : r.Views log) (hmem : extension ∈ candidates low)
    (hlookup : r.extensionIndex.lookup extension = some position) :
    ClaimedExtension r.profiles low extension :=
  ⟨exists_lastWith_iff.1 ⟨position, h.lookup_extensionIndex.1 hlookup⟩,
    (mem_candidates_iff.1 hmem).2⟩

/-- The first extension that the index knows is the longest one that is claimed. -/
theorem Views.longest_of_byExtension? (h : r.Views log)
    (hfound : r.byExtension? low = some position) :
    ∃ extension, LongestExtension r.profiles low extension ∧
      LastWith Profile.extensions extension r.profiles position := by
  obtain ⟨before, extension, after, hsplit, hlookup, hbefore⟩ :=
    List.findSome?_eq_some_iff.1 hfound
  have hmem : extension ∈ candidates low := hsplit ▸ List.mem_append_right _ List.mem_cons_self
  refine ⟨extension, ⟨h.claimed_of_lookup hmem hlookup, fun other hother => ?_⟩,
    h.lookup_extensionIndex.1 hlookup⟩
  obtain ⟨htried, position', hknown⟩ := h.exists_lookup_of_claimed hother
  have hpairwise := pairwise_candidates low
  rw [hsplit] at htried hpairwise
  -- In front of the first that is known none is known, and behind it all are shorter.
  rcases List.mem_append.1 htried with hin | hin
  · cases (hbefore other hin).symm.trans hknown
  · rcases List.mem_cons.1 hin with rfl | hin
    · exact Nat.le_refl _
    · have hafter := (List.pairwise_cons.1 (List.pairwise_append.1 hpairwise).2.1).1
      exact Nat.le_of_lt (hafter other hin)

/-- No extension is found just if none is claimed. -/
theorem Views.byExtension?_eq_none_iff (h : r.Views log) :
    r.byExtension? low = none ↔
      ∀ extension, ¬ ClaimedExtension r.profiles low extension := by
  rw [byExtension?, List.findSome?_eq_none_iff]
  constructor
  · intro hnone extension hclaimed
    obtain ⟨hmem, position, hlookup⟩ := h.exists_lookup_of_claimed hclaimed
    cases (hnone extension hmem).symm.trans hlookup
  · intro hnone extension hmem
    refine Option.eq_none_iff_forall_ne_some.2 fun position hlookup => ?_
    exact hnone extension (h.claimed_of_lookup hmem hlookup)

theorem Views.lookup_fileName_eq_none_iff (h : r.Views log) :
    r.fileNameIndex.lookup low = none ↔ ∀ q ∈ r.profiles, low ∉ q.fileNameKeys := by
  have hsome : (∃ position, r.fileNameIndex.lookup low = some position) ↔
      ∃ q ∈ r.profiles, low ∈ q.fileNameKeys := by
    simp only [h.lookup_fileNameIndex]
    exact exists_lastWith_iff
  rw [← not_iff_not, ← ne_eq, Option.ne_none_iff_exists', hsome]
  push Not
  rfl

theorem built_ofCalls (calls : List Call) : (History.ofCalls calls).registry.Built :=
  ⟨calls, rfl⟩

/-- A path leads to the profile at the position of its file name. -/
theorem resolvePath_of_position? (hname : path.fileName? = some (.ofText name))
    (hposition : r.position? name = some position) (hp : r.profiles[position]? = some p) :
    r.resolvePath path = .ok p := by
  have hfound : (path.fileName?.bind Name.text?).bind r.byFileName? = some p := by
    rw [hname, Option.bind_some, Name.text?_ofText, Option.bind_some, byFileName?, hposition,
      Option.bind_some, hp]
  rw [resolvePath, hfound]

theorem resolvePath_of_position?_eq_none (hname : path.fileName? = some (.ofText name))
    (hposition : r.position? name = none) :
    r.resolvePath path = .error (.unknownLanguage path.text) := by
  have hfound : (path.fileName?.bind Name.text?).bind r.byFileName? = none := by
    rw [hname, Option.bind_some, Name.text?_ofText, Option.bind_some, byFileName?, hposition,
      Option.bind_none]
  rw [resolvePath, hfound]

/-- A file whose name is not text belongs to no language. -/
theorem resolvePath_of_not_text (h : path.fileName?.bind Name.text? = none) :
    r.resolvePath path = .error (.unknownLanguage path.text) := by
  rw [resolvePath, h, Option.bind_none]

/-- A path is all that its file name is, but for the text of a failure. -/
theorem resolvePath_eq_ok_iff (hname : path.fileName? = some (.ofText name)) :
    r.resolvePath path = .ok p ↔ r.byFileName? name = some p := by
  rw [resolvePath, hname, Option.bind_some, Name.text?_ofText, Option.bind_some]
  cases r.byFileName? name with
  | none => simp
  | some q => simp

/-- A name that is no id leads where the path does. -/
theorem resolve_eq_resolvePath {s : String} (hid : r.get? s = none)
    (hname : (Path.ofText s).fileName? = some (.ofText name)) : r.resolve s = r.resolvePath s := by
  rw [resolve, hid, resolvePath, hname, Option.bind_some, Name.text?_ofText, Option.bind_some,
    Option.getD_some, Path.text_ofText]

/-- Which profile a path or a name leads to, after any calls. A path with a file name leads to the
last profile that claims the name, letter case aside. If none does, it leads to the last profile
that claims the longest claimed extension of the name. If there is none, the language is unknown.
What stands in front of the file name does not matter. A name that is an id, letter case aside,
leads to the profile that has it, and any other name that has a file name leads where the path does.
A file name that is not text is no language's. -/
theorem resolvePath_of_built (r : Registry) (built : r.Built) :
    (∀ (path : Path) (name : String), path.fileName? = some (.ofText name) →
      ((∃ q ∈ r.profiles, Text.lower name ∈ q.fileNameKeys) → ∃ p,
        LastOwner Profile.fileNameKeys (Text.lower name) r.profiles p ∧
        r.resolvePath path = .ok p) ∧
      ((∀ q ∈ r.profiles, Text.lower name ∉ q.fileNameKeys) →
        ((∃ extension, ClaimedExtension r.profiles (Text.lower name) extension) →
          ∃ extension p, LongestExtension r.profiles (Text.lower name) extension ∧
            LastOwner Profile.extensions extension r.profiles p ∧ r.resolvePath path = .ok p) ∧
        ((∀ extension, ¬ ClaimedExtension r.profiles (Text.lower name) extension) →
          r.resolvePath path = .error (.unknownLanguage path.text))) ∧
      ∀ (path' : Path), path'.fileName? = some (.ofText name) →
        ∀ p, r.resolvePath path' = .ok p ↔ r.resolvePath path = .ok p) ∧
    (∀ (path : Path) (name : Name), path.fileName? = some name → name.text? = none →
      r.resolvePath path = .error (.unknownLanguage path.text)) ∧
    ∀ s : String,
      (∀ p ∈ r.profiles, p.key = Text.lower s → r.resolve s = .ok p) ∧
      ((∀ p ∈ r.profiles, p.key ≠ Text.lower s) → (Path.ofText s).fileName? ≠ none →
        r.resolve s = r.resolvePath s) := by
  obtain ⟨log, hviews⟩ := built.views
  refine ⟨fun path name hname => ⟨fun hclaimed => ?_, fun hunclaimed => ⟨fun hclaimed => ?_,
    fun hnone => ?_⟩, fun path' hname' p => ?_⟩, fun path name hname htext => ?_,
    fun s => ⟨fun p hp hkey => ?_, fun hid hs => ?_⟩⟩
  · obtain ⟨position, hlast⟩ := exists_lastWith_iff.2 hclaimed
    obtain ⟨p, hp, howner⟩ := hlast.exists_lastOwner
    refine ⟨p, howner, resolvePath_of_position? hname ?_ hp⟩
    rw [position?_eq, hviews.lookup_fileNameIndex.2 hlast, Option.some_or]
  · have hposition := position?_eq r name
    rw [hviews.lookup_fileName_eq_none_iff.2 hunclaimed, Option.none_or] at hposition
    cases hfound : r.byExtension? (Text.lower name) with
    | none =>
      obtain ⟨extension, hextension⟩ := hclaimed
      exact absurd hextension (hviews.byExtension?_eq_none_iff.1 hfound extension)
    | some position =>
      obtain ⟨extension, hlongest, hlast⟩ := hviews.longest_of_byExtension? hfound
      obtain ⟨p, hp, howner⟩ := hlast.exists_lastOwner
      exact ⟨extension, p, hlongest, howner,
        resolvePath_of_position? hname (hposition.trans hfound) hp⟩
  · refine resolvePath_of_position?_eq_none hname ?_
    rw [position?_eq, hviews.lookup_fileName_eq_none_iff.2 hunclaimed, Option.none_or,
      hviews.byExtension?_eq_none_iff.2 hnone]
  · rw [resolvePath_eq_ok_iff hname, resolvePath_eq_ok_iff hname']
  · exact resolvePath_of_not_text (by rw [hname, Option.bind_some, htext])
  · rw [resolve, hviews.get?_eq_some_iff.2 ⟨hp, hkey⟩]
  · obtain ⟨name, hname⟩ := Option.ne_none_iff_exists'.1 hs
    obtain ⟨text, rfl⟩ := Path.exists_text_of_fileName? hname
    refine resolve_eq_resolvePath ?_ hname
    refine Option.eq_none_iff_forall_ne_some.2 fun p hp => ?_
    obtain ⟨hmem, hkey⟩ := hviews.get?_eq_some_iff.1 hp
    exact hid p hmem hkey

/-- A file with doubled dots and capitals in its name belongs to the longer of two extensions that it
has, wherever it stands. The other language is found by its id. A file without an extension belongs
to none, whatever its directory is called, and so does one whose name is not text. -/
theorem resolvePath_of_built_dotted :
    ∃ r : Registry, r.Built ∧
      r.profiles = [History.dialect "t" ["ts"], History.dialect "d" ["d.ts"]] ∧
      Path.fileName? "ts/a..D.TS" = some (.ofText "a..D.TS") ∧
      r.resolvePath "ts/a..D.TS" = .ok (History.dialect "d" ["d.ts"]) ∧
      r.resolvePath "a..D.TS" = .ok (History.dialect "d" ["d.ts"]) ∧
      r.resolve "ts/a..D.TS" = .ok (History.dialect "d" ["d.ts"]) ∧
      r.resolve "T" = .ok (History.dialect "t" ["ts"]) ∧
      r.resolvePath "a.ts/notes" = .error (.unknownLanguage "a.ts/notes") ∧
      r.resolvePath ⟨0xFF :: Text.encode ".ts".toList⟩ = .error (.unknownLanguage "\uFFFD.ts") := by
  have built : (History.ofCalls [.register (History.dialect "t" ["ts"]),
      .register (History.dialect "d" ["d.ts"])]).registry.Built := built_ofCalls _
  have hprofiles : (History.ofCalls [.register (History.dialect "t" ["ts"]),
      .register (History.dialect "d" ["d.ts"])]).registry.profiles =
      [History.dialect "t" ["ts"], History.dialect "d" ["d.ts"]] := by cbv
  obtain ⟨hpath, hmalformed, hname⟩ := resolvePath_of_built _ built
  generalize (History.ofCalls [.register (History.dialect "t" ["ts"]),
    .register (History.dialect "d" ["d.ts"])]).registry = r
    at built hprofiles hpath hmalformed hname
  rw [hprofiles] at hpath hname
  have hlow : Text.lower "a..D.TS" = "a..d.ts" := by cbv
  have hnotes : Text.lower "notes" = "notes" := by cbv
  have hfile : Path.fileName? "ts/a..D.TS" = some (.ofText "a..D.TS") := by decide
  have hresolve : r.resolvePath "ts/a..D.TS" = .ok (History.dialect "d" ["d.ts"]) := by
    obtain ⟨-, hextension, -⟩ := hpath _ _ hfile
    rw [hlow] at hextension
    obtain ⟨extension, p, hlongest, ⟨before, after, hsplit, hp, -⟩, hok⟩ :=
      (hextension (by decide)).1 ⟨"d.ts", ⟨_, .tail _ (.head _), .head _⟩, by decide⟩
    have hlength : "d.ts".length ≤ extension.length :=
      hlongest.longest "d.ts" ⟨⟨_, .tail _ (.head _), .head _⟩, by decide⟩
    have hmem : p ∈ [History.dialect "t" ["ts"], History.dialect "d" ["d.ts"]] :=
      hsplit ▸ List.mem_append_right before List.mem_cons_self
    rcases List.mem_cons.1 hmem with rfl | hmem
    · obtain rfl : extension = "ts" := List.mem_singleton.1 hp
      exact absurd hlength (by decide)
    · rwa [← List.mem_singleton.1 hmem]
  refine ⟨r, built, hprofiles, hfile, hresolve, ?_, ?_, ?_, ?_, ?_⟩
  · exact ((hpath _ _ hfile).2.2 "a..D.TS" (by decide) _).2 hresolve
  · rw [← hresolve]
    exact (hname "ts/a..D.TS").2 (by cbv; decide) (by rw [hfile]; exact Option.some_ne_none _)
  · exact (hname "T").1 _ (.head _) (by cbv)
  · rw [((hpath "a.ts/notes" "notes" (by decide)).2.1 ?_).2 ?_, Path.text_ofText]
    · rw [hnotes]
      decide
    · rw [hnotes]
      rintro extension ⟨-, hsuffix⟩
      exact absurd (hsuffix.subset List.mem_cons_self) (by decide)
  · rw [hmalformed _ ⟨0xFF :: Text.encode ".ts".toList⟩ (by decide) (by cbv)]
    cbv

end Registry

end SourceTally
