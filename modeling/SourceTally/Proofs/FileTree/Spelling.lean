import SourceTally.FileTree.Basic
import SourceTally.Proofs.Path.Text

/-!
# Spellings of a path

Two paths with the same components lead to the same place, unless one of them ends in a dot or a
slash and so must lead to a directory. The steps of a path are its components but for the dots
(`FileTree.filter_steps`), and a dot that more steps follow changes nothing, since these need a
directory as much as the dot does (`FileTree.Thins.follow_eq`). So it is for all plain paths
(`FileTree.resolve_eq_of_components_eq`), and every path that leads to a file is plain
(`FileTree.plain_of_resolve`).
-/

namespace SourceTally

/-! ## Components -/

namespace Path

open Component

variable {p q : Path}

/-- The step that a component stands for. The root and the dot stand for none. -/
def Component.step? : Component → Option Name
  | .root | .current => none
  | .parent => some .parent
  | .name step => some step

/-- The step that a piece between slashes stands for. A dot stands for none. -/
def stepOfPiece? (piece : List UInt8) : Option Name :=
  if piece = [] ∨ piece = [dot] then none else some ⟨piece⟩

theorem bind_step?_ofPiece? (piece : List UInt8) :
    (ofPiece? piece).bind Component.step? = stepOfPiece? piece := by
  unfold ofPiece? stepOfPiece?
  by_cases hidle : piece = [] ∨ piece = [dot]
  · rcases hidle with rfl | rfl <;> rfl
  · by_cases hparent : piece = [dot, dot]
    · subst hparent
      rfl
    · simp [hidle, hparent, Component.step?]

/-- The components stand for the steps that the pieces do. -/
theorem filterMap_step?_components (p : Path) :
    p.components.filterMap Component.step? =
      (Text.split slash p.bytes).filterMap stepOfPiece? := by
  unfold components pieces
  rw [List.filterMap_filterMap]
  split
  next h => rw [h]; rfl
  next h => rw [h]; rfl
  next first rest _ h =>
    rw [h, List.filterMap_cons, List.filterMap_cons, List.filterMap_map]
    have hrest : rest.filterMap
        ((fun x : List UInt8 × Option Component => x.2.bind Component.step?) ∘
          fun piece => (piece, ofPiece? piece)) = rest.filterMap stepOfPiece? :=
      List.filterMap_congr fun piece _ => bind_step?_ofPiece? piece
    rw [hrest]
    by_cases hroot : first = []
    · subst hroot
      rfl
    · by_cases hcurrent : first = [dot]
      · subst hcurrent
        rfl
      · simp only [if_neg hroot, if_neg hcurrent, bind_step?_ofPiece?]

/-- The component that the first piece of a path stands for. -/
def firstComponent? (piece : List UInt8) : Option Component :=
  if piece = [] then some .root else if piece = [dot] then some .current else ofPiece? piece

/-- The components of a path are those of its pieces, of which the first stands for a component in a
way of its own. -/
theorem components_of_split {first : List UInt8} {rest : List (List UInt8)} (hne : p.bytes ≠ [])
    (hsplit : Text.split slash p.bytes = first :: rest) :
    p.components = (firstComponent? first).toList ++ rest.filterMap ofPiece? := by
  have hpieces : p.pieces =
      (first, firstComponent? first) :: rest.map fun piece => (piece, ofPiece? piece) := by
    unfold pieces
    rw [hsplit]
    split
    next h => cases h
    next h =>
      have hnil : Text.split slash p.bytes = [[]] := hsplit.trans h
      exact absurd (Text.eq_nil_of_split hnil) hne
    next h =>
      cases h
      rfl
  rw [components, hpieces, List.filterMap_cons, List.filterMap_map]
  cases firstComponent? first with
  | none | some => rfl

/-- A piece that is neither empty nor a dot stands for a component, and not for the root. -/
theorem exists_ofPiece? {piece : List UInt8} (hempty : piece ≠ []) (hdot : piece ≠ [dot]) :
    ∃ component, ofPiece? piece = some component ∧ component ≠ .root := by
  unfold ofPiece?
  by_cases hparent : piece = [dot, dot]
  · exact ⟨.parent, by simp [hparent], by simp⟩
  · exact ⟨.name ⟨piece⟩, by simp [hempty, hdot, hparent], by simp⟩

/-- A path that does not begin with a slash begins with another component than the root. -/
theorem exists_head?_components {c : UInt8} {cs : List UInt8} (htext : p.bytes = c :: cs)
    (hslash : c ≠ slash) :
    ∃ component, p.components.head? = some component ∧ component ≠ .root := by
  obtain ⟨piece, rest, hsplit⟩ : ∃ piece rest,
      Text.split slash p.bytes = (c :: piece) :: rest := by
    rw [htext, Text.split, if_neg hslash]
    cases hrest : Text.split slash cs with
    | nil => exact absurd hrest (Text.split_ne_nil slash cs)
    | cons piece pieces => exact ⟨piece, pieces, rfl⟩
  have hne : p.bytes ≠ [] := by simp [htext]
  rw [components_of_split hne hsplit, firstComponent?, if_neg (List.cons_ne_nil c piece)]
  by_cases hdot : c :: piece = [dot]
  · exact ⟨.current, by simp [hdot], by simp⟩
  · obtain ⟨component, hcomponent, hroot⟩ := exists_ofPiece? (List.cons_ne_nil c piece) hdot
    exact ⟨component, by simp [hdot, hcomponent], hroot⟩

/-- An absolute path begins with the root. -/
theorem head?_components_of_slash {cs : List UInt8} (htext : p.bytes = slash :: cs) :
    p.components.head? = some .root := by
  have hne : p.bytes ≠ [] := by simp [htext]
  have hsplit : Text.split slash p.bytes = [] :: Text.split slash cs := by
    rw [htext, Text.split, if_pos rfl]
  rw [components_of_split hne hsplit]
  rfl

theorem isAbsolute_iff : p.isAbsolute = true ↔ p.components.head? = some .root := by
  cases htext : p.bytes with
  | nil => simp [isAbsolute, components, pieces, htext, Text.split]
  | cons c cs =>
    by_cases hslash : c = slash
    · subst hslash
      simp [isAbsolute, htext, head?_components_of_slash htext]
    · obtain ⟨component, hhead, hroot⟩ := exists_head?_components htext hslash
      simp [isAbsolute, htext, hhead, hslash, hroot]

theorem components_eq_nil_iff : p.components = [] ↔ p.bytes = [] := by
  cases htext : p.bytes with
  | nil => simp [components, pieces, htext, Text.split]
  | cons c cs =>
    suffices hhead : p.components.head? ≠ none by
      rw [← List.head?_eq_none_iff]
      simpa using hhead
    by_cases hslash : c = slash
    · subst hslash
      rw [head?_components_of_slash htext]
      exact Option.some_ne_none _
    · obtain ⟨component, hhead, -⟩ := exists_head?_components htext hslash
      rw [hhead]
      exact Option.some_ne_none _

theorem bytes_eq_of_ofPiece? {name : Name} {piece : List UInt8}
    (h : ofPiece? piece = some (.name name)) : name.bytes = piece := by
  unfold ofPiece? at h
  split at h
  · cases h
  · split at h
    · cases h
    · rw [← Component.name.inj (Option.some.inj h)]

/-- The names among the components stand between slashes. -/
theorem bytes_mem_split_of_mem_components {name : Name} (h : .name name ∈ p.components) :
    name.bytes ∈ Text.split slash p.bytes := by
  have hne : p.bytes ≠ [] := mt components_eq_nil_iff.2 (List.ne_nil_of_mem h)
  obtain ⟨first, rest, hsplit⟩ := List.exists_cons_of_ne_nil (Text.split_ne_nil slash p.bytes)
  rw [components_of_split hne hsplit] at h
  rw [hsplit]
  rcases List.mem_append.1 h with hfirst | hrest
  · have hpiece : firstComponent? first = some (.name name) := Option.mem_toList.1 hfirst
    unfold firstComponent? at hpiece
    split at hpiece
    · cases hpiece
    · split at hpiece
      · cases hpiece
      · rw [bytes_eq_of_ofPiece? hpiece]
        exact List.mem_cons_self
  · obtain ⟨piece, hmem, hpiece⟩ := List.mem_filterMap.1 hrest
    rw [bytes_eq_of_ofPiece? hpiece]
    exact List.mem_cons_of_mem first hmem

/-- The file name of a path that is text is text. -/
theorem exists_text_of_fileName? {text : String} {name : Name}
    (h : (ofText text).fileName? = some name) : ∃ text' : String, name = text' := by
  have hmem : .name name ∈ (ofText text).components := by
    unfold fileName? at h
    split at h
    · next hlast =>
      cases h
      exact List.mem_of_getLast? hlast
    · cases h
  have hpiece := bytes_mem_split_of_mem_components hmem
  rw [ofText, Text.split_encode] at hpiece
  obtain ⟨chars, -, hchars⟩ := List.mem_map.1 hpiece
  refine ⟨String.ofList chars, ?_⟩
  rw [Name.ofText, String.toList_ofList, hchars]

theorem fileName?_eq_of_components_eq (h : p.components = q.components) :
    p.fileName? = q.fileName? := by
  rw [fileName?, fileName?, h]

end Path

/-! ## Steps -/

namespace FileTree

variable {t : FileTree} {p q : Path} {links : Nat} {location found : Location}
  {path path' : List Name}

theorem filter_map_mk (pieces : List (List UInt8)) :
    (((pieces.filter (· ≠ [])).map Name.mk).filter (· ≠ Name.current)) =
      pieces.filterMap Path.stepOfPiece? := by
  induction pieces with
  | nil => rfl
  | cons piece pieces ih =>
    by_cases hempty : piece = []
    · subst hempty
      exact ih
    · have hdot : Name.mk piece = .current ↔ piece = [Path.dot] := by
        rw [Name.current, Name.mk.injEq]
      by_cases hpiece : piece = [Path.dot]
      · subst hpiece
        exact ih
      · rw [List.filter_cons_of_pos (by simpa using hempty), List.map_cons,
          List.filter_cons_of_pos (by simpa [hdot] using hpiece), ih, List.filterMap_cons]
        simp [Path.stepOfPiece?, hempty, hpiece]

/-- The steps are those that the components stand for, but for the dots. -/
theorem filter_steps (p : Path) :
    (steps p).filter (· ≠ Name.current) = p.components.filterMap Path.Component.step? := by
  rw [Path.filterMap_step?_components, ← filter_map_mk]
  unfold steps
  split
  · exact (List.filter_append ..).trans (List.append_nil _)
  · rfl

/-! ## Dots on the way -/

/-- Steps from which dots are dropped that other steps follow. -/
inductive Thins : List Name → List Name → Prop where
  | nil : Thins [] []
  | keep {step : Name} {path path' : List Name} : Thins path path' →
      Thins (step :: path) (step :: path')
  | drop {path path' : List Name} : Thins path path' → path' ≠ [] →
      Thins (Name.current :: path) path'

theorem Thins.append_left (h : Thins path path') (first : List Name) :
    Thins (first ++ path) (first ++ path') := by
  induction first with
  | nil => exact h
  | cons step first ih => exact ih.keep

theorem Thins.of_cons {step : Name} (h : Thins (step :: path) path') (hstep : step ≠ Name.current) :
    ∃ rest, path' = step :: rest ∧ Thins path rest := by
  cases h with
  | keep h => exact ⟨_, rfl, h⟩
  | drop => exact absurd rfl hstep

theorem getLast?_of_cons {step : Name} (hstep : step ≠ Name.current)
    (h : (step :: path).getLast? = some Name.current) : path.getLast? = some Name.current := by
  cases path with
  | nil => exact absurd (by simpa using h) hstep
  | cons next path => rwa [List.getLast?_cons_cons] at h

/-- Steps that do not end in a dot can do without any. -/
theorem thins_filter (h : path.getLast? ≠ some Name.current) :
    Thins path (path.filter (· ≠ Name.current)) := by
  induction path with
  | nil => exact .nil
  | cons step path ih =>
    cases path with
    | nil =>
      have hstep : step ≠ Name.current := by simpa using h
      rw [List.filter_cons_of_pos (by simpa using hstep)]
      exact .keep .nil
    | cons next path =>
      rw [List.getLast?_cons_cons] at h
      by_cases hstep : step = Name.current
      · subst hstep
        rw [List.filter_cons_of_neg (by simp)]
        refine .drop (ih h) fun hnil => h ?_
        rw [List.getLast?_eq_some_getLast (List.cons_ne_nil next path)]
        have hdot := List.filter_eq_nil_iff.1 hnil _ (List.getLast_mem (List.cons_ne_nil next path))
        exact congrArg some (by simpa using hdot)
      · rw [List.filter_cons_of_pos (by simpa using hstep)]
        exact .keep (ih h)

/-- Steps lead on only from a directory. -/
theorem follow_of_not_directory (h : t.entry? location ≠ some .directory) (hpath : path ≠ []) :
    t.follow links location path = .error .notDirectory := by
  obtain ⟨step, rest, rfl⟩ := List.exists_cons_of_ne_nil hpath
  rw [follow]
  split
  next hdirectory => exact absurd hdirectory h
  next => rfl

/-- Dots that other steps follow change nothing. -/
theorem Thins.follow_eq (h : Thins path path') :
    t.follow links location path = t.follow links location path' := by
  fun_induction follow t links location path generalizing path' with
  | case1 =>
    cases h
    rw [follow]
  | case2 links location rest hdirectory ih =>
    cases h with
    | keep h => rw [ih h, follow, hdirectory, if_pos rfl]
    | drop h _ => exact ih h
  | case3 links location rest hdirectory hstep ih =>
    obtain ⟨rest', rfl, hrest⟩ := h.of_cons hstep
    rw [ih hrest, follow, hdirectory]
    rfl
  | case4 links location step rest hdirectory hstep hparent hentry =>
    obtain ⟨rest', rfl, -⟩ := h.of_cons hstep
    rw [follow, hdirectory]
    simp only [hstep, hparent, hentry, if_false]
  | case5 location step rest hdirectory hstep hparent target hentry =>
    obtain ⟨rest', rfl, -⟩ := h.of_cons hstep
    rw [follow, hdirectory]
    simp only [hstep, hparent, hentry, if_false]
  | case6 location step rest hdirectory hstep hparent target hentry links ih =>
    -- the steps of the target come in front of those that are left, with all their dots
    obtain ⟨rest', rfl, hrest⟩ := h.of_cons hstep
    rw [ih (hrest.append_left (steps target)), follow, hdirectory]
    simp only [hstep, hparent, hentry, if_false]
  | case7 links location step rest hdirectory hstep hparent entry hlink hentry ih =>
    obtain ⟨rest', rfl, hrest⟩ := h.of_cons hstep
    rw [ih hrest, follow, hdirectory]
    simp only [hstep, hparent, hentry, if_false]
  | case8 links location step rest hdirectory =>
    -- a dot is dropped in front of other steps only, and these fail here as the dot does
    refine (follow_of_not_directory hdirectory fun hnil => ?_).symm
    subst hnil
    cases h with
    | drop _ hne => exact hne rfl

/-- Steps that end in a dot lead to a directory. -/
theorem directory_of_follow (hdot : path.getLast? = some Name.current)
    (h : t.follow links location path = .ok found) : t.entry? found = some .directory := by
  fun_induction follow t links location path with
  | case1 => cases hdot
  | case2 links location rest hdirectory ih =>
    cases rest with
    | nil =>
      rw [follow] at h
      cases h
      exact hdirectory
    | cons next rest => exact ih (by rwa [List.getLast?_cons_cons] at hdot) h
  | case3 links location rest hdirectory hstep ih =>
    exact ih (getLast?_of_cons hstep hdot) h
  | case4 | case5 => cases h
  | case6 location step rest hdirectory hstep hparent target hentry links ih =>
    have hrest := getLast?_of_cons hstep hdot
    exact ih (by rw [List.getLast?_append, hrest]; rfl) h
  | case7 links location step rest hdirectory hstep hparent entry hlink hentry ih =>
    exact ih (getLast?_of_cons hstep hdot) h
  | case8 => cases h

/-! ## Plain paths -/

/-- The path does not end in a dot or a slash, which would want a directory. -/
def Plain (p : Path) : Prop :=
  (steps p).getLast? ≠ some Name.current

/-- A path that leads to anything but a directory is plain. -/
theorem plain_of_resolve (h : t.resolve p = .ok found) (hfile : t.entry? found ≠ some .directory) :
    Plain p := by
  intro hdot
  unfold resolve at h
  split at h
  · cases h
  · exact hfile (directory_of_follow hdot h)

/-- A plain path leads where its components do. -/
theorem resolve_of_plain (hp : Plain p) (hne : p.bytes ≠ []) :
    t.resolve p = t.follow maxLinks (start p t.workingDirectory)
      (p.components.filterMap Path.Component.step?) := by
  rw [resolve, if_neg hne, (thins_filter hp).follow_eq, filter_steps]

/-- Plain spellings of one path lead to the same place. -/
theorem resolve_eq_of_components_eq (h : p.components = q.components) (hp : Plain p)
    (hq : Plain q) : t.resolve p = t.resolve q := by
  have hempty : p.bytes = [] ↔ q.bytes = [] := by
    rw [← Path.components_eq_nil_iff, ← Path.components_eq_nil_iff, h]
  have habsolute : p.isAbsolute = q.isAbsolute := by
    rw [Bool.eq_iff_iff, Path.isAbsolute_iff, Path.isAbsolute_iff, h]
  by_cases hnil : p.bytes = []
  · rw [resolve, resolve, if_pos hnil, if_pos (hempty.1 hnil)]
  · rw [resolve_of_plain hp hnil, resolve_of_plain hq (mt hempty.2 hnil), start, start, habsolute,
      h]

theorem read_eq_of_components_eq (h : p.components = q.components) (hp : Plain p) (hq : Plain q) :
    t.read p = t.read q := by
  rw [read, read, resolve_eq_of_components_eq h hp hq]

end FileTree

end SourceTally
