import SourceTally.Discovery
import SourceTally.Proofs.FileTree.Spelling

/-!
# Names of entries

The entries of a directory have names, which are not empty, hold no slash and are neither a dot nor
a double dot (`FileTree.Named`), and they stand in directories, one at each location
(`FileTree.WellFormed`). Making entries keeps it so, whatever the path, so it holds of every tree
that can be made (`FileTree.Made.wellFormed`). Where entries have names, a walk reaches files by
paths that end in a name, so every path that is discovered is plain
(`FileTree.plain_of_mem_discover`).
-/

namespace SourceTally

namespace FileTree

/-- A step of a path. -/
structure IsStep (step : Name) : Prop where
  ne_empty : step.bytes ≠ []
  no_slash : Path.slash ∉ step.bytes

/-- A name that an entry of a directory can have. -/
structure IsName (name : Name) : Prop extends IsStep name where
  ne_dot : name ≠ .current
  ne_parent : name ≠ .parent

/-- Every entry has a name. -/
def Named (t : FileTree) : Prop :=
  ∀ name directory entry, (name :: directory, entry) ∈ t.entries → IsName name

variable {t t' : FileTree} {p q : Path} {location directory : Location} {entry : Entry}
  {name : Name}

theorem isStep_of_mem_steps {step : Name} (h : step ∈ steps p) : IsStep step := by
  have hpieces : ∀ step ∈ ((Text.split Path.slash p.bytes).filter (· ≠ [])).map Name.mk,
      IsStep step := by
    intro step hstep
    obtain ⟨piece, hpiece, rfl⟩ := List.mem_map.1 hstep
    obtain ⟨hmem, hempty⟩ := List.mem_filter.1 hpiece
    exact ⟨of_decide_eq_true hempty, Text.notMem_of_mem_split hmem⟩
  unfold steps at h
  split at h
  · rcases List.mem_append.1 h with h | h
    · exact hpieces step h
    · obtain rfl := List.mem_singleton.1 h
      exact ⟨by decide, by decide⟩
  · exact hpieces step h

/-! ## Making entries -/

theorem lookup_filter_ne {entries : List (Location × Entry)} {other : Location}
    (h : other ≠ location) :
    (entries.filter (·.1 ≠ location)).lookup other = entries.lookup other := by
  induction entries with
  | nil => rfl
  | cons first entries ih =>
    by_cases hfirst : first.1 = location
    · have hother : (other == first.1) = false := beq_eq_false_iff_ne.2 (hfirst ▸ h)
      rw [List.filter_cons_of_neg (by simpa using hfirst), ih, List.lookup_cons, hother]
    · rw [List.filter_cons_of_pos (by simpa using hfirst), List.lookup_cons, List.lookup_cons, ih]

theorem entry?_insert_of_ne {other : Location} (h : other ≠ location) :
    entry? (t.insert location entry) other = t.entry? other := by
  have hnew : List.lookup other [(location, entry)] = none := by
    rw [List.lookup_cons, beq_eq_false_iff_ne.2 h]
    rfl
  unfold entry?
  rw [insert, List.lookup_append, lookup_filter_ne h, hnew, Option.or_none]

theorem entry?_insert_self (h : location ≠ []) :
    entry? (t.insert location entry) location = some entry := by
  have hold : (t.entries.filter (·.1 ≠ location)).lookup location = none := by
    refine List.lookup_eq_none_iff.2 fun other hother => ?_
    exact bne_iff_ne.2 fun heq => of_decide_eq_true (List.mem_filter.1 hother).2 heq.symm
  unfold entry?
  rw [if_neg h, insert, List.lookup_append, hold, List.lookup_cons_self]
  rfl

/-- A tree as a file system has it: entries have names and stand in directories, there is one at
each location, and the working directory is there. -/
structure WellFormed (t : FileTree) : Prop where
  named : t.Named
  nodup : (t.entries.map Prod.fst).Nodup
  parent : ∀ name directory, t.entry? (name :: directory) ≠ none →
    t.entry? directory = some .directory
  working : t.entry? t.workingDirectory = some .directory

/-- A directory stays one when no directory is replaced by anything else. -/
theorem directory_insert {other : Location} (hlocation : location ≠ [])
    (hkeep : t.entry? location = some .directory → entry = .directory)
    (h : t.entry? other = some .directory) :
    entry? (t.insert location entry) other = some .directory := by
  by_cases heq : other = location
  · subst heq
    rw [entry?_insert_self hlocation, hkeep h]
  · rwa [entry?_insert_of_ne heq]

theorem WellFormed.insert (h : t.WellFormed) (hname : IsName name)
    (hdirectory : t.entry? directory = some .directory)
    (hkeep : t.entry? (name :: directory) = some .directory → entry = .directory) :
    (t.insert (name :: directory) entry).WellFormed := by
  have hkept : ∀ other, t.entry? other = some .directory →
      entry? (t.insert (name :: directory) entry) other = some .directory :=
    fun other => directory_insert (List.cons_ne_nil name directory) hkeep
  refine ⟨?_, ?_, fun name' directory' hentry => ?_, hkept _ h.working⟩
  · intro name' directory' entry' hmem
    rcases List.mem_append.1 hmem with hold | hnew
    · exact h.named name' directory' entry' (List.mem_filter.1 hold).1
    · cases List.mem_singleton.1 hnew
      exact hname
  · rw [FileTree.insert, List.map_append, List.nodup_append]
    refine ⟨h.nodup.sublist (List.filter_sublist.map _), List.nodup_singleton _, ?_⟩
    intro location hold location' hnew
    obtain ⟨entry', hmem, rfl⟩ := List.mem_map.1 hold
    cases List.mem_singleton.1 hnew
    exact of_decide_eq_true (List.mem_filter.1 hmem).2
  · by_cases heq : name' :: directory' = name :: directory
    · cases heq
      exact hkept directory hdirectory
    · rw [entry?_insert_of_ne heq] at hentry
      exact hkept directory' (h.parent name' directory' hentry)

/-- The directory that another one stands in is one. -/
theorem WellFormed.directory_tail (h : t.WellFormed)
    (hlocation : t.entry? location = some .directory) :
    t.entry? location.tail = some .directory := by
  cases location with
  | nil => rfl
  | cons name directory => exact h.parent name directory (by simp [hlocation])

theorem WellFormed.directory_start (h : t.WellFormed) (p : Path) :
    t.entry? (start p t.workingDirectory) = some .directory := by
  unfold start
  split
  · rfl
  · exact h.working

theorem WellFormed.makeDirectories {path : List Name} (h : t.WellFormed)
    (hlocation : t.entry? location = some .directory) (hpath : ∀ step ∈ path, IsStep step)
    (hmake : t.makeDirectories location path = some (t', directory)) :
    t'.WellFormed ∧ t'.entry? directory = some .directory := by
  fun_induction FileTree.makeDirectories t location path with
  | case1 =>
    cases hmake
    exact ⟨h, hlocation⟩
  | case2 t location rest ih =>
    exact ih h hlocation (List.forall_mem_of_forall_mem_cons hpath) hmake
  | case3 t location rest _ ih =>
    exact ih h (h.directory_tail hlocation) (List.forall_mem_of_forall_mem_cons hpath) hmake
  | case4 t location step rest hdot hparent hnone ih =>
    have hname : IsName step := ⟨hpath step List.mem_cons_self, hdot, hparent⟩
    refine ih (h.insert hname hlocation fun _ => rfl) ?_
      (List.forall_mem_of_forall_mem_cons hpath) hmake
    exact entry?_insert_self (List.cons_ne_nil step location)
  | case5 t location step rest _ _ hdirectory ih =>
    exact ih h hdirectory (List.forall_mem_of_forall_mem_cons hpath) hmake
  | case6 t location step rest _ _ _ _ _ next _ hdirectory ih =>
    exact ih h hdirectory (List.forall_mem_of_forall_mem_cons hpath) hmake
  | case7 | case8 => cases hmake

/-- A file is written in a directory under a name, and not where a directory is. -/
theorem exists_of_fileLocation? {links : Nat} (hname : IsStep name)
    (hdirectory : t.entry? directory = some .directory)
    (h : t.fileLocation? links directory name = some location) :
    ∃ name parent, location = name :: parent ∧ IsName name ∧
      t.entry? parent = some .directory ∧ t.entry? location ≠ some .directory := by
  fun_induction fileLocation? t links directory name with
  | case1 | case2 | case3 => cases h
  | case4 links directory name _ target _ ih =>
    simp only [Option.bind_eq_bind, Option.bind_eq_some_iff] at h
    obtain ⟨last, hlast, place, -, h⟩ := h
    split at h
    · next hplace =>
      exact ih last place (isStep_of_mem_steps (List.mem_of_getLast? hlast)) hplace h
    · cases h
  | case5 links directory name hdots hentry =>
    cases h
    rw [not_or] at hdots
    exact ⟨name, directory, rfl, ⟨hname, hdots.1, hdots.2⟩, hdirectory, hentry⟩

theorem WellFormed.insertIn (h : t.WellFormed) (hname : IsStep name)
    (hdirectory : t.entry? directory = some .directory) :
    (t.insertIn directory name entry).WellFormed := by
  cases entry with
  | file | unreadable =>
    rw [FileTree.insertIn]
    cases hlocation : t.fileLocation? (maxLinks + 1) directory name with
    | none => exact h
    | some location =>
      obtain ⟨last, parent, rfl, hlast, hparent, hentry⟩ :=
        exists_of_fileLocation? hname hdirectory hlocation
      exact h.insert hlast hparent fun hdirectory => absurd hdirectory hentry
  | link | directory =>
    rw [FileTree.insertIn]
    split
    · exact h
    · next hdots =>
      rw [not_or, not_or, not_not] at hdots
      refine h.insert ⟨hname, hdots.1, hdots.2.1⟩ hdirectory fun hentry => ?_
      cases hdots.2.2.symm.trans hentry

/-- An entry that is made keeps the tree well-formed, wherever the path points. -/
theorem WellFormed.insertAt (h : t.WellFormed) (p : Path) (entry : Entry) :
    (t.insertAt p entry).WellFormed := by
  unfold FileTree.insertAt
  split
  next name made directory hname hmake =>
    obtain ⟨hmade, hdirectory⟩ := h.makeDirectories (h.directory_start p)
      (fun step hstep => isStep_of_mem_steps (List.mem_of_mem_dropLast hstep)) hmake
    exact hmade.insertIn (isStep_of_mem_steps (List.mem_of_getLast? hname)) hdirectory
  next => exact h

/-- So does a directory that is made to be entered. -/
theorem WellFormed.enter (h : t.WellFormed) (p : Path) : (t.enter p).WellFormed := by
  unfold FileTree.enter
  split
  next made directory hmake =>
    obtain ⟨hmade, hdirectory⟩ := h.makeDirectories (h.directory_start p)
      (fun _ => isStep_of_mem_steps) hmake
    exact ⟨hmade.named, hmade.nodup, hmade.parent, hdirectory⟩
  next => exact h

/-- The tree can be made from nothing by making entries and entering directories. -/
inductive Made : FileTree → Prop where
  | empty : Made {}
  | insertAt {t : FileTree} (p : Path) (entry : Entry) : Made t → Made (t.insertAt p entry)
  | enter {t : FileTree} (p : Path) : Made t → Made (t.enter p)

/-- Every tree that can be made is well-formed. -/
theorem Made.wellFormed (h : t.Made) : t.WellFormed := by
  induction h with
  | empty =>
    refine ⟨?_, List.nodup_nil, fun name directory hentry => absurd rfl hentry, rfl⟩
    intro name directory entry hmem
    cases hmem
  | insertAt p entry _ ih => exact ih.insertAt p entry
  | enter p _ ih => exact ih.enter p

/-- The entries of every tree that can be made have names. -/
theorem Made.named (h : t.Made) : t.Named :=
  h.wellFormed.named

/-! ## Paths that end in a name -/

/-- A joined path is the name by itself or behind a slash. -/
theorem exists_bytes_join (p : Path) (name : Name) :
    (p.join name).bytes = name.bytes ∨
      ∃ before, (p.join name).bytes = before ++ Path.slash :: name.bytes := by
  unfold Path.join
  by_cases hempty : p.bytes = []
  · left
    simp [hempty]
  · by_cases hslash : p.bytes.getLast? = some Path.slash
    · right
      obtain ⟨before, hbefore⟩ := List.getLast?_eq_some_iff.1 hslash
      exact ⟨before, by simp [hbefore]⟩
    · right
      exact ⟨p.bytes, by simp [hempty, hslash]⟩

/-- The last step of a joined path is the name. -/
theorem getLast?_steps_join (h : IsStep name) (p : Path) :
    (steps (p.join name)).getLast? = some name := by
  have hlast : name.bytes.getLast? ≠ some Path.slash := fun heq =>
    h.no_slash (List.mem_of_getLast? heq)
  have hpiece : Text.split Path.slash name.bytes = [name.bytes] := Text.split_of_notMem h.no_slash
  obtain ⟨before, hsplit⟩ : ∃ before,
      Text.split Path.slash (p.join name).bytes = before ++ [name.bytes] := by
    rcases exists_bytes_join p name with hbytes | ⟨before, hbytes⟩
    · exact ⟨[], by rw [hbytes, hpiece, List.nil_append]⟩
    · exact ⟨Text.split Path.slash before, by rw [hbytes, Text.split_append_cons, hpiece]⟩
  have hend : (p.join name).bytes.getLast? ≠ some Path.slash := by
    rcases exists_bytes_join p name with hbytes | ⟨before, hbytes⟩
    · rwa [hbytes]
    · rwa [hbytes, List.append_cons, List.getLast?_append_of_ne_nil _ h.ne_empty]
  simp only [steps, if_neg hend, hsplit]
  simp [h.ne_empty]

/-- A path that ends in a name is plain. -/
theorem plain_join (h : IsName name) (p : Path) : Plain (p.join name) := by
  rw [Plain, getLast?_steps_join h.toIsStep]
  exact fun heq => h.ne_dot (Option.some.inj heq)

/-! ## Walks -/

/-- A walk goes through the entries of a directory, each by its branch. -/
theorem mem_walk_iff {inside : List Location} :
    q ∈ t.walk inside directory p ↔ ∃ name entry, (name, entry) ∈ t.children directory ∧
      (t.branch inside (p.join name) name entry = .file ∧ q = p.join name ∨
        t.branch inside (p.join name) name entry = .down ∧
          q ∈ t.walk ((name :: directory) :: inside) (name :: directory) (p.join name) ∨
        ∃ location, t.branch inside (p.join name) name entry = .across location ∧
          q ∈ t.walk (location :: inside) location (p.join name)) := by
  rw [walk]
  simp only [List.mem_flatMap, List.mem_attach, true_and, Subtype.exists, Prod.exists]
  refine exists_congr fun name => exists_congr fun entry => ?_
  rw [exists_prop]
  refine and_congr_right fun _ => ?_
  cases t.branch inside (p.join name) name entry with
  | nothing | file | down | across => simp

/-- A walk reaches files by paths that end in the name of an entry. -/
theorem exists_join_of_mem_walk {inside : List Location} (h : q ∈ t.walk inside directory p) :
    ∃ (before : Path) (name : Name) (parent : Location) (entry : Entry),
      q = before.join name ∧ (name :: parent, entry) ∈ t.entries := by
  induction inside, directory, p using walk.induct t with
  | case1 inside directory p ihdown ihacross =>
    obtain ⟨name, entry, hchild, ⟨-, rfl⟩ | ⟨-, h⟩ | ⟨location, hbranch, h⟩⟩ := mem_walk_iff.1 h
    · exact ⟨p, name, directory, entry, rfl, mem_entries_of_mem_children hchild⟩
    · exact ihdown name entry hchild h
    · exact ihacross name entry location hbranch h

/-- Where entries have names, every path that is discovered is plain. -/
theorem plain_of_mem_discover {filter : Filter} {files : List Path} (named : t.Named)
    (h : t.discover filter p = .ok files) (hq : q ∈ files) : Plain q := by
  unfold discover discoverWhere at h
  split at h
  next => cases h
  next location hresolve =>
    split at h
    next hdirectory =>
      cases h
      have hwalk : q ∈ t.filesBelow location p :=
        (List.mem_filter.1 (List.mem_mergeSort.1 hq)).1
      obtain ⟨before, name, parent, entry, rfl, hentry⟩ := exists_join_of_mem_walk hwalk
      exact plain_join (named name parent entry hentry) before
    next hfile =>
      cases h
      obtain rfl := List.mem_singleton.1 (List.mem_filter.1 hq).1
      exact plain_of_resolve hresolve hfile

end FileTree

end SourceTally
