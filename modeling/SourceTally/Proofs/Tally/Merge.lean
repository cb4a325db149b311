import SourceTally.Proofs.Tally

/-!
# Tallies in parts and in any order

Merging goes id by id: each id gets what the other tally has for it (`Tally.insertAll_spec`). The
sums over two lists of files behind each other are made up in the same way (`Tally.statsOf_append`),
so the merged tally sums up both lists, names included (`Tally.Sums.merge?`), and it exists whenever
the files fit (`Tally.Sums.exists_merge?`). From this, by induction on how a tally is come by,
nothing but the files from left to right matters (`Tally.Plan.sums`); `Tally.merge?_addAll` puts
this together.

The order of the files matters for the names only. Where the name goes by the language, files in
another order come to the same for each language (`Tally.statsOf_perm`). Where it does not, this
holds of the files without their names, and the sums of these are the sums without the names
(`Tally.Sums.withoutNames`); `Tally.addAll_perm` states both.
-/

namespace SourceTally.Tally

variable {languages languages' more : List (String × LanguageStats)} {xs ys : List Item}
  {a b c t : Tally} {id : String}

/-! ## Merging -/

/-- Entries that are added in order add to each id what they have for it. -/
theorem insertAll_spec (h : Ordered languages) (hmore : Ordered more)
    (hins : more.foldlM (fun l entry => insert? entry.1 entry.2 l) languages = .ok languages') :
    Ordered languages' ∧ ∀ id, languages'.lookup id =
      (languages.lookup id).merge LanguageStats.plus (more.lookup id) := by
  induction more generalizing languages with
  | nil =>
    cases hins
    exact ⟨h, fun id => Option.merge_none_right.symm⟩
  | cons first more ih =>
    obtain ⟨id₁, stats₁⟩ := first
    obtain ⟨hfirst, hmore⟩ := List.pairwise_cons.1 hmore
    rw [List.foldlM_cons, bind_eq_ok_iff] at hins
    obtain ⟨next, hnext, hins⟩ := hins
    obtain ⟨hnextOrdered, hself, hother⟩ := insert?_spec h hnext
    obtain ⟨hordered, hlookup⟩ := ih hnextOrdered hmore hins
    refine ⟨hordered, fun id => ?_⟩
    rw [hlookup]
    by_cases heq : id = id₁
    · -- the ids increase, so the entries behind the first have nothing for its id
      subst heq
      rw [hself, lookup_eq_none_of_lt hfirst, Option.merge_none_right, List.lookup_cons_self]
    · rw [hother id heq, List.lookup_cons, beq_eq_false_iff_ne.2 heq]

/-- Entries can be added in order if all the sums with those that are known fit. -/
theorem exists_insertAll (h : Ordered languages) (hmore : Ordered more)
    (hfits : ∀ id known stats, languages.lookup id = some known → more.lookup id = some stats →
      (known.plus stats).Fits) :
    ∃ languages', more.foldlM (fun l entry => insert? entry.1 entry.2 l) languages =
      .ok languages' := by
  induction more generalizing languages with
  | nil => exact ⟨languages, rfl⟩
  | cons first more ih =>
    obtain ⟨id₁, stats₁⟩ := first
    obtain ⟨hfirst, hmore⟩ := List.pairwise_cons.1 hmore
    obtain ⟨next, hnext⟩ := exists_insert? fun known hknown =>
      hfits id₁ known stats₁ hknown List.lookup_cons_self
    obtain ⟨hnextOrdered, -, hother⟩ := insert?_spec h hnext
    have hrest : ∀ id known stats, next.lookup id = some known → more.lookup id = some stats →
        (known.plus stats).Fits := by
      intro id known stats hknown hstats
      have hne : id ≠ id₁ := by
        rintro rfl
        rw [lookup_eq_none_of_lt hfirst] at hstats
        cases hstats
      rw [hother id hne] at hknown
      refine hfits id known stats hknown ?_
      rw [List.lookup_cons, beq_eq_false_iff_ne.2 hne]
      exact hstats
    obtain ⟨languages', hlanguages'⟩ := ih hnextOrdered hmore hrest
    exact ⟨languages', bind_eq_ok_iff.2 ⟨next, hnext, hlanguages'⟩⟩

theorem merge?_eq_ok_iff : a.merge? b = .ok c ↔
    a.fileCount + b.fileCount ≤ maxCount ∧ (a.total + b.total).fits = true ∧
      ∃ languages,
        b.languages.foldlM (fun l entry => insert? entry.1 entry.2 l) a.languages = .ok languages ∧
        c = ⟨a.fileCount + b.fileCount, a.total + b.total, languages⟩ := by
  simp only [merge?, bind_eq_ok_iff, fitCount_eq_ok_iff, Counts.add?_eq_ok_iff]
  constructor
  · rintro ⟨_, ⟨hcount, rfl⟩, _, ⟨hfits, rfl⟩, languages, hins, h⟩
    exact ⟨hcount, hfits, languages, hins, (Except.ok.inj h).symm⟩
  · rintro ⟨hcount, hfits, languages, hins, rfl⟩
    exact ⟨_, ⟨hcount, rfl⟩, _, ⟨hfits, rfl⟩, languages, hins, rfl⟩

/-- The merged tally sums up the files of both, those of the first in front. -/
theorem Sums.merge? (h : Sums xs a) (h' : Sums ys b) (hmerge : a.merge? b = .ok c) :
    Sums (xs ++ ys) c := by
  obtain ⟨-, -, languages, hins, rfl⟩ := merge?_eq_ok_iff.1 hmerge
  obtain ⟨hordered, hlookup⟩ := insertAll_spec h.ordered h'.ordered hins
  refine ⟨?_, ?_, hordered, fun id => ?_⟩
  · rw [List.length_append, ← h.fileCount, ← h'.fileCount]
  · rw [List.map_append, List.sum_append, ← h.total, ← h'.total]
  · rw [statsOf_append, ← h.lookup, ← h'.lookup, hlookup]

/-- Tallies of files that fit together can be merged. -/
theorem Sums.exists_merge? (h : Sums xs a) (h' : Sums ys b) (fits : Fits (xs ++ ys)) :
    ∃ c, a.merge? b = .ok c := by
  have hboth : ∀ id known stats, a.languages.lookup id = some known →
      b.languages.lookup id = some stats → (known.plus stats).Fits := by
    intro id known stats hknown hstats
    refine fits.statsOf (?_ : statsOf (xs ++ ys) id = _)
    rw [statsOf_append, ← h.lookup, ← h'.lookup, hknown, hstats, Option.merge_some_some]
  obtain ⟨languages, hins⟩ := exists_insertAll h.ordered h'.ordered hboth
  obtain ⟨few, counts⟩ := fits
  rw [List.length_append, ← h.fileCount, ← h'.fileCount] at few
  rw [List.map_append, List.sum_append, ← h.total, ← h'.total] at counts
  exact ⟨_, merge?_eq_ok_iff.2 ⟨few, counts, languages, hins, rfl⟩⟩

/-! ## Plans -/

/-- A way to come by a tally: from nothing, by adding a file, or by merging another tally. -/
inductive Plan where
  | empty
  | add (plan : Plan) (item : Item)
  | merge (plan other : Plan)

namespace Plan

/-- The files of a plan from left to right. -/
def items : Plan → List Item
  | empty => []
  | add plan item => plan.items ++ [item]
  | merge plan other => plan.items ++ other.items

/-- The tally that a plan comes to. -/
def run : Plan → Except Fault Tally
  | empty => .ok {}
  | add plan item => do (← plan.run).add? item.language item.name item.counts
  | merge plan other => do (← plan.run).merge? (← other.run)

variable {plan : Plan}

/-- What a plan comes to sums up its files. -/
theorem sums (h : plan.run = .ok t) : Sums plan.items t := by
  induction plan generalizing t with
  | empty =>
    cases h
    exact sums_nil
  | add plan item ih =>
    obtain ⟨before, hbefore, hadd⟩ := bind_eq_ok_iff.1 h
    exact (ih hbefore).add? hadd
  | merge plan other ih ih' =>
    obtain ⟨a, ha, h⟩ := bind_eq_ok_iff.1 h
    obtain ⟨b, hb, hmerge⟩ := bind_eq_ok_iff.1 h
    exact (ih ha).merge? (ih' hb) hmerge

/-- A plan whose files fit comes to a tally. -/
theorem exists_run (fits : Fits plan.items) : ∃ t, plan.run = .ok t := by
  induction plan with
  | empty => exact ⟨{}, rfl⟩
  | add plan item ih =>
    obtain ⟨before, hbefore⟩ := ih fits.left
    obtain ⟨t, hadd⟩ := (sums hbefore).exists_add? fits
    exact ⟨t, bind_eq_ok_iff.2 ⟨before, hbefore, hadd⟩⟩
  | merge plan other ih ih' =>
    obtain ⟨a, ha⟩ := ih fits.left
    obtain ⟨b, hb⟩ := ih' (fits.perm List.perm_append_comm).left
    obtain ⟨t, hmerge⟩ := (sums ha).exists_merge? (sums hb) fits
    exact ⟨t, bind_eq_ok_iff.2 ⟨a, ha, bind_eq_ok_iff.2 ⟨b, hb, hmerge⟩⟩⟩

end Plan

/-- Files that fit are added up to the tally that sums them up. -/
theorem exists_addAll_sums {items : List Item} (fits : Fits items) :
    ∃ t, addAll {} items = .ok t ∧ Sums items t := by
  obtain ⟨t, hadd⟩ := exists_addAll_iff.2 fits
  exact ⟨t, hadd, sums_nil.addAll hadd⟩

/-- Merging the tallies of two lists of files comes to the same as adding the files of both lists
one after the other, and so does every plan with these files from left to right. -/
theorem merge?_addAll (fits : Fits (xs ++ ys)) :
    (∃ a b c : Tally, addAll {} xs = .ok a ∧ addAll {} ys = .ok b ∧
      addAll {} (xs ++ ys) = .ok c ∧ a.merge? b = .ok c) ∧
    ∀ plan : Plan, plan.items = xs ++ ys → plan.run = addAll {} (xs ++ ys) := by
  obtain ⟨a, ha, hsumsA⟩ := exists_addAll_sums fits.left
  obtain ⟨b, hb, hsumsB⟩ := exists_addAll_sums (fits.perm List.perm_append_comm).left
  obtain ⟨c, hc, hsumsC⟩ := exists_addAll_sums fits
  constructor
  · obtain ⟨c', hmerge⟩ := hsumsA.exists_merge? hsumsB fits
    obtain rfl : c' = c := (hsumsA.merge? hsumsB hmerge).unique hsumsC
    exact ⟨a, b, c', ha, hb, hc, hmerge⟩
  · intro plan hitems
    rw [← hitems] at fits hsumsC
    obtain ⟨t, ht⟩ := Plan.exists_run fits
    rw [ht, hc, (Plan.sums ht).unique hsumsC]

/-- A language that both parts have keeps the name that it has in the first. -/
theorem merge?_addAll_renamed :
    Fits ([⟨"c", "C", .one .code⟩] ++ [⟨"ada", "Ada", .one .blank⟩, ⟨"c", "See", .one .header⟩]) ∧
    ∃ a b c : Tally, addAll {} [⟨"c", "C", .one .code⟩] = .ok a ∧
      addAll {} [⟨"ada", "Ada", .one .blank⟩, ⟨"c", "See", .one .header⟩] = .ok b ∧
      a.merge? b = .ok c ∧
      c = ⟨3, { blank := 1, code := 1, header := 1, total := 3 },
        [("ada", ⟨"ada", "Ada", 1, .one .blank⟩),
          ("c", ⟨"c", "C", 2, { code := 1, header := 1, total := 2 }⟩)]⟩ ∧
      (Plan.merge (.add .empty ⟨"c", "C", .one .code⟩)
        (.merge (.add .empty ⟨"ada", "Ada", .one .blank⟩)
          (.add .empty ⟨"c", "See", .one .header⟩))).run = .ok c := by
  have fits : Fits ([⟨"c", "C", .one .code⟩] ++
      [⟨"ada", "Ada", .one .blank⟩, ⟨"c", "See", .one .header⟩]) := ⟨by decide, by decide⟩
  obtain ⟨⟨a, b, c, ha, hb, hc, hmerge⟩, hplan⟩ := merge?_addAll fits
  refine ⟨fits, a, b, c, ha, hb, hmerge, ?_, ?_⟩
  · exact Except.ok.inj (hc.symm.trans (by decide))
  · rw [hplan _ rfl, hc]

/-! ## Order -/

/-- Where the names go by the languages, it does not matter which file of a language comes first. -/
theorem statsOf_of_names {nameOf : String → String}
    (names : ∀ item ∈ xs, item.name = nameOf item.language) (id : String) :
    statsOf xs id = if id ∈ xs.map Item.language then
      some ⟨id, nameOf id, (xs.filter (·.language = id)).length,
        ((xs.filter (·.language = id)).map Item.counts).sum⟩ else none := by
  by_cases hmem : id ∈ xs.map Item.language
  · obtain ⟨stats, hstats⟩ := Option.isSome_iff_exists.1 (statsOf_isSome_iff.2 hmem)
    obtain ⟨first, hfirst, rfl⟩ := Option.map_eq_some_iff.1 hstats
    have hlanguage : first.language = id := by simpa using List.find?_some hfirst
    have hname : first.name = nameOf id := by
      rw [names first (List.mem_of_find?_eq_some hfirst), hlanguage]
    rw [if_pos hmem, hstats, hname]
  · rw [if_neg hmem, ← Option.not_isSome_iff_eq_none, statsOf_isSome_iff]
    exact hmem

/-- Where the names go by the languages, the order of the files does not matter to a language. -/
theorem statsOf_perm {nameOf : String → String} (hperm : xs.Perm ys)
    (names : ∀ item ∈ xs, item.name = nameOf item.language) (id : String) :
    statsOf xs id = statsOf ys id := by
  have names' : ∀ item ∈ ys, item.name = nameOf item.language := by
    intro item hitem
    exact names item (hperm.mem_iff.2 hitem)
  have hown := hperm.filter (·.language = id)
  rw [statsOf_of_names names, statsOf_of_names names', hown.length_eq,
    (hown.map Item.counts).sum_eq]
  exact if_congr (hperm.map Item.language).mem_iff rfl rfl

/-- Where the names go by the languages, a tally sums up its files in any order. -/
theorem Sums.perm (h : Sums xs t) (hperm : xs.Perm ys) (nameOf : String → String)
    (names : ∀ item ∈ xs, item.name = nameOf item.language) : Sums ys t := by
  refine ⟨?_, ?_, h.ordered, fun id => ?_⟩
  · rw [h.fileCount, hperm.length_eq]
  · rw [h.total, (hperm.map Item.counts).sum_eq]
  · rw [h.lookup, statsOf_perm hperm names]

/-- The file with its name left out. -/
def Item.withoutName (item : Item) : Item :=
  { item with name := "" }

/-- The tally with all names left out. -/
def withoutNames (t : Tally) : Tally :=
  { t with languages := t.languages.map fun entry => (entry.1, { entry.2 with name := "" }) }

theorem lookup_withoutNames (t : Tally) (id : String) :
    t.withoutNames.languages.lookup id =
      (t.languages.lookup id).map fun stats => { stats with name := "" } := by
  unfold withoutNames
  induction t.languages with
  | nil => rfl
  | cons first languages ih =>
    obtain ⟨id₁, stats₁⟩ := first
    rw [List.map_cons, List.lookup_cons, List.lookup_cons]
    cases id == id₁ with
    | true => rfl
    | false => exact ih

theorem statsOf_map_withoutName (items : List Item) (id : String) :
    statsOf (items.map Item.withoutName) id =
      (statsOf items id).map fun stats => { stats with name := "" } := by
  simp only [statsOf, List.find?_map, List.filter_map, List.length_map, List.map_map,
    Option.map_map]
  rfl

/-- Without the names, a tally sums up the files without their names. -/
theorem Sums.withoutNames (h : Sums xs t) : Sums (xs.map Item.withoutName) t.withoutNames := by
  refine ⟨?_, ?_, List.pairwise_map.2 h.ordered, fun id => ?_⟩
  · rw [List.length_map]
    exact h.fileCount
  · rw [List.map_map]
    exact h.total
  · rw [lookup_withoutNames, statsOf_map_withoutName, h.lookup]

/-- The order in which files are added matters to the names only, and where the name of a file goes
by its language it does not matter at all. -/
theorem addAll_perm (hperm : xs.Perm ys) (fits : Fits xs) :
    ∃ a b : Tally, addAll {} xs = .ok a ∧ addAll {} ys = .ok b ∧
      a.withoutNames = b.withoutNames ∧
      ∀ nameOf : String → String, (∀ item ∈ xs, item.name = nameOf item.language) → a = b := by
  obtain ⟨a, ha, hsumsA⟩ := exists_addAll_sums fits
  obtain ⟨b, hb, hsumsB⟩ := exists_addAll_sums (fits.perm hperm)
  refine ⟨a, b, ha, hb, ?_, fun nameOf names => ?_⟩
  · have hempty : ∀ item ∈ xs.map Item.withoutName, item.name = "" := by
      intro item hitem
      obtain ⟨item, -, rfl⟩ := List.mem_map.1 hitem
      rfl
    exact (hsumsA.withoutNames.perm (hperm.map _) (fun _ => "") hempty).unique hsumsB.withoutNames
  · exact (hsumsA.perm hperm nameOf names).unique hsumsB

/-- The first two of three files trade places. -/
theorem addAll_perm_named :
    [⟨"c", "C", .one .code⟩, ⟨"ada", "Ada", .one .blank⟩, ⟨"c", "C", .one .header⟩].Perm
      [⟨"ada", "Ada", .one .blank⟩, ⟨"c", "C", .one .code⟩, (⟨"c", "C", .one .header⟩ : Item)] ∧
    Fits [⟨"c", "C", .one .code⟩, ⟨"ada", "Ada", .one .blank⟩, ⟨"c", "C", .one .header⟩] ∧
    ∃ t : Tally,
      addAll {} [⟨"c", "C", .one .code⟩, ⟨"ada", "Ada", .one .blank⟩, ⟨"c", "C", .one .header⟩] =
        .ok t ∧
      addAll {} [⟨"ada", "Ada", .one .blank⟩, ⟨"c", "C", .one .code⟩, ⟨"c", "C", .one .header⟩] =
        .ok t := by
  have hperm := List.Perm.swap (⟨"ada", "Ada", .one .blank⟩ : Item) ⟨"c", "C", .one .code⟩
    [⟨"c", "C", .one .header⟩]
  have fits : Fits [⟨"c", "C", .one .code⟩, ⟨"ada", "Ada", .one .blank⟩,
      ⟨"c", "C", .one .header⟩] := ⟨by decide, by decide⟩
  obtain ⟨a, b, ha, hb, -, hsame⟩ := addAll_perm hperm fits
  have heq : a = b := hsame (fun language => if language = "c" then "C" else "Ada") (by simp)
  exact ⟨hperm, fits, b, heq ▸ ha, hb⟩

end SourceTally.Tally
