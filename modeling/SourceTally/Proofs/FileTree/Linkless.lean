import SourceTally.Proofs.FileTree.Named

/-!
# Trees without links

In a tree without links a path leads where its components say, one after the other
(`FileTree.Linkless.follow_cons_eq_ok_iff`), so the location of a path can be read off its
components (`FileTree.Linkless.location_eq_foldl`). A walk adds the names that it goes down by to
the components of the path that it starts from (`Path.components_join`) and to its location
(`FileTree.Linkless.resolve_join`). So the names between a path and a file that is discovered from
it stand in the components of the file as they do in its location
(`FileTree.Linkless.exists_names_of_mem_discover`).
-/

namespace SourceTally

/-! ## Components -/

namespace Path

open Component

variable {p : Path} {name : Name}

theorem ofPiece?_bytes (h : FileTree.IsName name) : ofPiece? name.bytes = some (.name name) := by
  have hdot : name.bytes ≠ [dot] := fun heq => h.ne_dot (congrArg Name.mk heq)
  have hparent : name.bytes ≠ [dot, dot] := fun heq => h.ne_parent (congrArg Name.mk heq)
  simp [ofPiece?, h.ne_empty, hdot, hparent]

/-- The pieces of a joined path are those of the path and the name. A slash at the end of the path
leaves an empty piece, which makes room for the name and stands for nothing. -/
theorem exists_split_join (h : FileTree.IsStep name) (hne : p.bytes ≠ []) : ∃ first rest last,
    Text.split Path.slash p.bytes = first :: (rest ++ last) ∧
    Text.split Path.slash (p.join name).bytes = first :: (rest ++ [name.bytes]) ∧
    last.filterMap ofPiece? = [] := by
  have hpiece : Text.split Path.slash name.bytes = [name.bytes] := Text.split_of_notMem h.no_slash
  by_cases hslash : p.bytes.getLast? = some Path.slash
  · obtain ⟨before, hbefore⟩ := List.getLast?_eq_some_iff.1 hslash
    obtain ⟨first, rest, hfirst⟩ := List.exists_cons_of_ne_nil (Text.split_ne_nil Path.slash before)
    have hbytes : (p.join name).bytes = before ++ Path.slash :: name.bytes := by
      simp [join, hbefore]
    refine ⟨first, rest, [[]], ?_, ?_, rfl⟩
    · rw [hbefore, Text.split_append_cons, hfirst]
      rfl
    · rw [hbytes, Text.split_append_cons, hfirst, hpiece]
      rfl
  · obtain ⟨first, rest, hfirst⟩ :=
      List.exists_cons_of_ne_nil (Text.split_ne_nil Path.slash p.bytes)
    have hbytes : (p.join name).bytes = p.bytes ++ Path.slash :: name.bytes := by
      simp [join, hne, hslash]
    refine ⟨first, rest, [], ?_, ?_, rfl⟩
    · rw [hfirst, List.append_nil]
    · rw [hbytes, Text.split_append_cons, hfirst, hpiece]
      rfl

/-- A joined path has the name as one more component. -/
theorem components_join (h : FileTree.IsName name) (hne : p.bytes ≠ []) :
    (p.join name).components = p.components ++ [.name name] := by
  obtain ⟨first, rest, last, hsplit, hjoin, hlast⟩ := exists_split_join h.toIsStep hne
  have hnonempty : (p.join name).bytes ≠ [] := by
    intro hnil
    rw [hnil] at hjoin
    simp [Text.split] at hjoin
  rw [components_of_split hnonempty hjoin, components_of_split hne hsplit]
  simp [List.filterMap_append, hlast, ofPiece?_bytes h]

/-- The pieces behind the first stand for double dots and names. -/
theorem eq_parent_or_name_of_ofPiece? {piece : List UInt8} {c : Component}
    (h : ofPiece? piece = some c) :
    c = .parent ∨ ∃ name, c = .name name ∧ name ≠ .current ∧ name ≠ .parent := by
  unfold ofPiece? at h
  split at h
  · cases h
  · next hidle =>
    split at h
    · exact .inl (Option.some.inj h).symm
    · next hparent =>
      refine .inr ⟨_, (Option.some.inj h).symm, fun heq => hidle ?_, fun heq => hparent ?_⟩
      · simp [Name.mk.inj heq]
      · exact Name.mk.inj heq

theorem exists_filterMap_eq_map_name {pieces : List (List UInt8)}
    (hparent : .parent ∉ pieces.filterMap ofPiece?) : ∃ names : List Name,
      pieces.filterMap ofPiece? = names.map .name ∧
        ∀ name ∈ names, name ≠ .current ∧ name ≠ .parent := by
  induction pieces with
  | nil => exact ⟨[], rfl, List.forall_mem_nil _⟩
  | cons piece pieces ih =>
    cases hpiece : ofPiece? piece with
    | none =>
      rw [List.filterMap_cons_none hpiece] at hparent ⊢
      exact ih hparent
    | some c =>
      rw [List.filterMap_cons_some hpiece, List.mem_cons, not_or] at hparent
      obtain ⟨name, rfl, hname⟩ :=
        (eq_parent_or_name_of_ofPiece? hpiece).resolve_left (Ne.symm hparent.1)
      obtain ⟨names, hnames, hdots⟩ := ih hparent.2
      refine ⟨name :: names, ?_, List.forall_mem_cons.2 ⟨hname, hdots⟩⟩
      rw [List.filterMap_cons_some hpiece, hnames, List.map_cons]

/-- The path begins with a dot. -/
def Dotted (p : Path) : Prop :=
  p.components.head? = some .current

instance : Decidable p.Dotted :=
  inferInstanceAs (Decidable (_ = _))

/-- A relative path without double dots is made up of names, behind a dot or not. -/
theorem exists_names (hne : p.bytes ≠ []) (hrelative : p.isAbsolute = false)
    (hparent : .parent ∉ p.components) : ∃ names : List Name,
      p.components = (if p.Dotted then [.current] else []) ++ names.map .name ∧
      ∀ name ∈ names, name ≠ .current ∧ name ≠ .parent := by
  obtain ⟨first, rest, hsplit⟩ := List.exists_cons_of_ne_nil (Text.split_ne_nil Path.slash p.bytes)
  have hcomponents := components_of_split hne hsplit
  by_cases hroot : first = []
  · subst hroot
    have habsolute : p.isAbsolute = true := isAbsolute_iff.2 (by rw [hcomponents]; rfl)
    rw [habsolute] at hrelative
    cases hrelative
  · by_cases hdot : first = [dot]
    · subst hdot
      have hcurrent : p.components = .current :: rest.filterMap ofPiece? := hcomponents
      rw [hcurrent, List.mem_cons, not_or] at hparent
      obtain ⟨names, hnames, hdots⟩ := exists_filterMap_eq_map_name hparent.2
      have hdotted : p.Dotted := by rw [Dotted, hcurrent, List.head?_cons]
      exact ⟨names, by rw [if_pos hdotted, hcurrent, hnames, List.singleton_append], hdots⟩
    · have hall : p.components = (first :: rest).filterMap ofPiece? := by
        rw [hcomponents, firstComponent?, if_neg hroot, if_neg hdot, List.filterMap_cons]
        cases ofPiece? first with
        | none | some => rfl
      rw [hall] at hparent
      obtain ⟨names, hnames, hdots⟩ := exists_filterMap_eq_map_name hparent
      have hdotted : ¬ p.Dotted := by
        rw [Dotted, hall, hnames]
        cases names with
        | nil | cons => simp
      exact ⟨names, by rw [if_neg hdotted, hall, hnames, List.nil_append], hdots⟩

end Path

/-! ## Following -/

namespace FileTree

/-- No entry is a link. -/
def Linkless (t : FileTree) : Prop :=
  ∀ location target, t.entry? location ≠ some (.link target)

theorem linkless_of_forall_mem {t : FileTree}
    (h : ∀ entry ∈ t.entries, ∀ target, entry.2 ≠ .link target) : t.Linkless := by
  intro location target hentry
  unfold entry? at hentry
  split at hentry
  · cases hentry
  · obtain ⟨before, after, hentries, -⟩ := List.lookup_eq_some_iff.1 hentry
    exact h (location, .link target) (by simp [hentries]) target rfl

/-- Where a step leads from a directory when nothing is a link. -/
def move (location : Location) (step : Name) : Location :=
  if step = .current then location else if step = .parent then location.tail else step :: location

variable {t : FileTree} {p q : Path} {links : Nat} {location directory found : Location}
  {step name : Name} {path rest : List Name}

theorem move_of_ne (hdot : step ≠ .current) (hparent : step ≠ .parent) :
    move location step = step :: location := by
  rw [move, if_neg hdot, if_neg hparent]

theorem foldl_move_of_ne (h : ∀ step ∈ path, step ≠ .current ∧ step ≠ .parent) :
    path.foldl move location = path.reverse ++ location := by
  induction path generalizing location with
  | nil => rfl
  | cons step path ih =>
    obtain ⟨hstep, hpath⟩ := List.forall_mem_cons.1 h
    rw [List.foldl_cons, ih hpath, move_of_ne hstep.1 hstep.2, List.reverse_cons,
      List.append_assoc, List.singleton_append]

namespace Linkless

/-- One step leads on from a directory, to something that is there. -/
theorem follow_cons_eq_ok_iff (h : t.Linkless) :
    t.follow links location (step :: path) = .ok found ↔
      t.entry? location = some .directory ∧
      (step = .current ∨ step = .parent ∨ t.entry? (step :: location) ≠ none) ∧
      t.follow links (move location step) path = .ok found := by
  by_cases hdirectory : t.entry? location = some .directory
  · rw [follow, hdirectory]
    by_cases hdot : step = .current
    · simp [move, hdot]
    · by_cases hparent : step = .parent
      · have hne : Name.parent ≠ Name.current := by decide
        simp [move, hparent, hne]
      · rw [move_of_ne hdot hparent]
        simp only [hdot, hparent, if_false, false_or, true_and]
        cases hentry : t.entry? (step :: location) with
        | none => simp
        | some entry =>
          cases entry with
          | link target => exact absurd hentry (h _ target)
          | file | unreadable | directory => simp
  · simp [follow_of_not_directory hdirectory, hdirectory]

/-- Steps after steps lead on from where the first lead. -/
theorem follow_append_eq_ok_iff (h : t.Linkless) :
    t.follow links location (path ++ rest) = .ok found ↔ ∃ place,
      t.follow links location path = .ok place ∧ t.follow links place rest = .ok found := by
  induction path generalizing location with
  | nil => simp [follow]
  | cons step path ih =>
    simp only [List.cons_append, h.follow_cons_eq_ok_iff, ih]
    constructor
    · rintro ⟨hdirectory, hstep, place, hpath, hrest⟩
      exact ⟨place, ⟨hdirectory, hstep, hpath⟩, hrest⟩
    · rintro ⟨place, ⟨hdirectory, hstep, hpath⟩, hrest⟩
      exact ⟨hdirectory, hstep, place, hpath, hrest⟩

/-- Steps that lead somewhere lead there without their dots. -/
theorem follow_filter (h : t.Linkless) (hfollow : t.follow links location path = .ok found) :
    t.follow links location (path.filter (· ≠ .current)) = .ok found := by
  induction path generalizing location with
  | nil => exact hfollow
  | cons step path ih =>
    obtain ⟨hdirectory, hstep, hpath⟩ := h.follow_cons_eq_ok_iff.1 hfollow
    by_cases hdot : step = .current
    · subst hdot
      exact ih hpath
    · rw [List.filter_cons_of_pos (by simpa using hdot)]
      exact h.follow_cons_eq_ok_iff.2 ⟨hdirectory, hstep, ih hpath⟩

theorem eq_foldl_of_follow (h : t.Linkless)
    (hfollow : t.follow links location path = .ok found) : found = path.foldl move location := by
  induction path generalizing location with
  | nil =>
    rw [follow] at hfollow
    exact (Except.ok.inj hfollow).symm
  | cons step path ih => exact ih (h.follow_cons_eq_ok_iff.1 hfollow).2.2

/-- Steps lead to something that is there. -/
theorem entry?_ne_none_of_follow (h : t.Linkless) (wellFormed : t.WellFormed)
    (hlocation : t.entry? location ≠ none) (hfollow : t.follow links location path = .ok found) :
    t.entry? found ≠ none := by
  induction path generalizing location with
  | nil =>
    rw [follow] at hfollow
    cases hfollow
    exact hlocation
  | cons step path ih =>
    obtain ⟨hdirectory, hstep, hpath⟩ := h.follow_cons_eq_ok_iff.1 hfollow
    refine ih ?_ hpath
    unfold move
    split
    · exact hlocation
    · next hdot =>
      split
      · rw [wellFormed.directory_tail hdirectory]
        exact Option.some_ne_none _
      · next hparent => exact (hstep.resolve_left hdot).resolve_left hparent

/-! ## Paths -/

theorem follow_of_resolve (h : t.Linkless) (hresolve : t.resolve p = .ok location) :
    p.bytes ≠ [] ∧ t.follow maxLinks (start p t.workingDirectory)
      (p.components.filterMap Path.Component.step?) = .ok location := by
  unfold resolve at hresolve
  split at hresolve
  · cases hresolve
  · next hne => exact ⟨hne, filter_steps p ▸ h.follow_filter hresolve⟩

/-- The location of a path can be read off its components. -/
theorem location_eq_foldl (h : t.Linkless) (hresolve : t.resolve p = .ok location) :
    location = (p.components.filterMap Path.Component.step?).foldl move
      (start p t.workingDirectory) :=
  h.eq_foldl_of_follow (h.follow_of_resolve hresolve).2

/-- A relative path without double dots leads down from the working directory by its names. -/
theorem exists_names_of_resolve (h : t.Linkless) (hresolve : t.resolve p = .ok location)
    (hrelative : p.isAbsolute = false) (hparent : .parent ∉ p.components) :
    ∃ names : List Name,
      p.components = (if p.Dotted then [.current] else []) ++ names.map .name ∧
      location = names.reverse ++ t.workingDirectory := by
  obtain ⟨names, hnames, hdots⟩ :=
    Path.exists_names (h.follow_of_resolve hresolve).1 hrelative hparent
  have hsteps : p.components.filterMap Path.Component.step? = names := by
    rw [hnames, List.filterMap_append, List.filterMap_map]
    have hlead : (if p.Dotted then [Path.Component.current] else []).filterMap
        Path.Component.step? = [] := by
      split <;> rfl
    rw [hlead, List.nil_append]
    exact List.filterMap_some
  refine ⟨names, hnames, ?_⟩
  rw [h.location_eq_foldl hresolve, hsteps, foldl_move_of_ne hdots, start, hrelative]
  rfl

theorem entry?_ne_none_of_resolve (h : t.Linkless) (wellFormed : t.WellFormed)
    (hresolve : t.resolve p = .ok location) : t.entry? location ≠ none := by
  refine h.entry?_ne_none_of_follow wellFormed ?_ (h.follow_of_resolve hresolve).2
  rw [wellFormed.directory_start]
  exact Option.some_ne_none _

/-- A joined path leads to what has the name in the directory. -/
theorem resolve_join (h : t.Linkless) (hname : IsName name) (hresolve : t.resolve p = .ok directory)
    (hdirectory : t.entry? directory = some .directory)
    (hentry : t.entry? (name :: directory) ≠ none) :
    t.resolve (p.join name) = .ok (name :: directory) := by
  obtain ⟨hne, hfollow⟩ := h.follow_of_resolve hresolve
  have hjoin := Path.components_join hname hne
  have hnonempty : (p.join name).bytes ≠ [] := by
    rw [ne_eq, ← Path.components_eq_nil_iff, hjoin]
    simp
  have hstart : start (p.join name) t.workingDirectory = start p t.workingDirectory := by
    have habsolute : (p.join name).isAbsolute = p.isAbsolute := by
      rw [Bool.eq_iff_iff, Path.isAbsolute_iff, Path.isAbsolute_iff, hjoin,
        List.head?_append_of_ne_nil _ (mt Path.components_eq_nil_iff.1 hne)]
    rw [start, start, habsolute]
  have hstep : [Path.Component.name name].filterMap Path.Component.step? = [name] := rfl
  rw [resolve_of_plain (plain_join hname p) hnonempty, hstart, hjoin, List.filterMap_append, hstep]
  refine h.follow_append_eq_ok_iff.2 ⟨directory, hfollow, ?_⟩
  refine h.follow_cons_eq_ok_iff.2 ⟨hdirectory, .inr (.inr hentry), ?_⟩
  rw [move_of_ne hname.ne_dot hname.ne_parent, follow]

end Linkless

/-! ## Walks -/

/-- There is nothing at the location of an entry but the entry. -/
theorem WellFormed.entry?_of_mem (h : t.WellFormed) {entry : Entry} (hlocation : location ≠ [])
    (hmem : (location, entry) ∈ t.entries) : t.entry? location = some entry := by
  obtain ⟨before, after, hentries⟩ := List.append_of_mem hmem
  unfold entry?
  rw [if_neg hlocation, List.lookup_eq_some_iff]
  refine ⟨before, after, hentries, fun other hother => ?_⟩
  have hnodup := h.nodup
  rw [hentries, List.map_append, List.nodup_append] at hnodup
  exact bne_iff_ne.2 (hnodup.2.2 _ (List.mem_map_of_mem hother) _ List.mem_cons_self).symm

namespace Linkless

/-- A walk takes the files of a directory and goes down into its directories. -/
theorem mem_walk_cases (h : t.Linkless) (wellFormed : t.WellFormed) {inside : List Location}
    (hq : q ∈ t.walk inside directory p) : ∃ name entry, (name, entry) ∈ t.children directory ∧
      t.entry? (name :: directory) = some entry ∧
      (entry.isFile = true ∧ q = p.join name ∨ entry = .directory ∧
        q ∈ t.walk ((name :: directory) :: inside) (name :: directory) (p.join name)) := by
  obtain ⟨name, entry, hchild, hbranch⟩ := mem_walk_iff.1 hq
  have hentry := wellFormed.entry?_of_mem (List.cons_ne_nil name directory)
    (mem_entries_of_mem_children hchild)
  refine ⟨name, entry, hchild, hentry, ?_⟩
  cases entry with
  | link target => exact absurd hentry (h _ target)
  | file | unreadable =>
    rcases hbranch with ⟨-, rfl⟩ | ⟨hbranch, -⟩ | ⟨location, hbranch, -⟩
    · exact .inl ⟨rfl, rfl⟩
    · cases hbranch
    · cases hbranch
  | directory =>
    rcases hbranch with ⟨hbranch, -⟩ | ⟨-, hq⟩ | ⟨location, hbranch, -⟩
    · rw [branch] at hbranch
      split at hbranch <;> cases hbranch
    · exact .inr ⟨rfl, hq⟩
    · rw [branch] at hbranch
      split at hbranch <;> cases hbranch

/-- A walk adds the names that it goes down by to the components and to the location. -/
theorem exists_names_of_mem_walk (h : t.Linkless) (wellFormed : t.WellFormed)
    {inside : List Location} (hresolve : t.resolve p = .ok directory)
    (hdirectory : t.entry? directory = some .directory) (hq : q ∈ t.walk inside directory p) :
    ∃ names : List Name, q.components = p.components ++ names.map .name ∧
      t.resolve q = .ok (names.reverse ++ directory) ∧ t.isFile q = true := by
  induction inside, directory, p using walk.induct t with
  | case1 inside directory p ihdown _ =>
    obtain ⟨name, entry, hchild, hentry, hq⟩ := h.mem_walk_cases wellFormed hq
    have hname : IsName name :=
      wellFormed.named name directory entry (mem_entries_of_mem_children hchild)
    have hjoin := h.resolve_join hname hresolve hdirectory (by simp [hentry])
    have hcomponents := Path.components_join hname (h.follow_of_resolve hresolve).1
    rcases hq with ⟨hfile, rfl⟩ | ⟨rfl, hq⟩
    · refine ⟨[name], hcomponents, hjoin, ?_⟩
      simp [isFile, find?, hjoin, Except.toOption, hentry, hfile]
    · obtain ⟨names, hnames, hlocation, hfile⟩ := ihdown name .directory hchild hjoin hentry hq
      refine ⟨name :: names, ?_, ?_, hfile⟩
      · rw [hnames, hcomponents, List.append_assoc, List.map_cons, List.singleton_append]
      · rw [hlocation, List.reverse_cons, List.append_assoc, List.singleton_append]

/-- What is discovered from a path is told by the names between the two, in the components as in the
location. -/
theorem exists_names_of_mem_discover (h : t.Linkless) (wellFormed : t.WellFormed)
    {filter : Filter} {files : List Path} (hdiscover : t.discover filter p = .ok files)
    (hq : q ∈ files) : ∃ (location : Location) (names : List Name),
      t.resolve p = .ok location ∧ q.components = p.components ++ names.map .name ∧
      t.resolve q = .ok (names.reverse ++ location) ∧ t.isFile q = true := by
  unfold discover discoverWhere at hdiscover
  split at hdiscover
  next => cases hdiscover
  next location hresolve =>
    split at hdiscover
    next hdirectory =>
      cases hdiscover
      have hwalk : q ∈ t.filesBelow location p :=
        (List.mem_filter.1 (List.mem_mergeSort.1 hq)).1
      obtain ⟨names, hnames⟩ := h.exists_names_of_mem_walk wellFormed hresolve hdirectory hwalk
      exact ⟨location, names, hresolve, hnames⟩
    next hfile =>
      cases hdiscover
      obtain rfl := List.mem_singleton.1 (List.mem_filter.1 hq).1
      refine ⟨location, [], hresolve, (List.append_nil _).symm, hresolve, ?_⟩
      obtain ⟨entry, hentry⟩ :=
        Option.ne_none_iff_exists'.1 (h.entry?_ne_none_of_resolve wellFormed hresolve)
      have hisFile : entry.isFile = true := by
        cases entry with
        | file | unreadable => rfl
        | link target => exact absurd hentry (h location target)
        | directory => exact absurd hentry hfile
      simp [isFile, find?, hresolve, Except.toOption, hentry, hisFile]

end Linkless

end FileTree

end SourceTally
