import SourceTally.Proofs.Counts
import SourceTally.Tally

/-!
# What a tally sums up

Adding files one after the other gives a tally that is determined by the list of the files
(`Tally.Sums`): how many they are, the sum of their counts, and for each language the name that came
first, the number of its files and the sum of their counts. One file more keeps this
(`Tally.Sums.add?`), so it holds for every list (`Tally.Sums.addAll`). Adding up fails only when the
number of files or the sum of all counts does not fit, whatever the order
(`Tally.exists_addAll_iff`).
-/

namespace SourceTally

namespace LanguageStats

/-- The sums over the files of both, under the name of the first. -/
def plus (a b : LanguageStats) : LanguageStats :=
  { a with fileCount := a.fileCount + b.fileCount, stats := a.stats + b.stats }

/-- Every number fits. -/
def Fits (s : LanguageStats) : Prop :=
  s.fileCount ≤ maxCount ∧ s.stats.fits = true

theorem add?_eq_ok_iff {a b c : LanguageStats} :
    a.add? b = .ok c ↔ (a.plus b).Fits ∧ c = a.plus b := by
  simp only [add?, bind_eq_ok_iff, fitCount_eq_ok_iff, Counts.add?_eq_ok_iff]
  constructor
  · rintro ⟨_, ⟨hcount, rfl⟩, _, ⟨hfits, rfl⟩, h⟩
    exact ⟨⟨hcount, hfits⟩, (Except.ok.inj h).symm⟩
  · rintro ⟨⟨hcount, hfits⟩, rfl⟩
    exact ⟨_, ⟨hcount, rfl⟩, _, ⟨hfits, rfl⟩, rfl⟩

end LanguageStats

namespace Tally

/-! ## Languages in order -/

/-- The ids increase. -/
def Ordered (languages : List (String × LanguageStats)) : Prop :=
  languages.Pairwise fun a b => a.1 < b.1

section

variable {languages languages' : List (String × LanguageStats)} {id id' : String}
  {stats stats' : LanguageStats}

/-- An id below all others is not there. -/
theorem lookup_eq_none_of_lt (h : ∀ entry ∈ languages, id < entry.1) :
    languages.lookup id = none := by
  refine List.lookup_eq_none_iff.2 fun entry hentry => ?_
  exact bne_iff_ne.2 (h entry hentry).ne

/-- In order, an id has one entry at most. -/
theorem Ordered.mem_iff (h : Ordered languages) :
    (id, stats) ∈ languages ↔ languages.lookup id = some stats := by
  induction languages with
  | nil => simp
  | cons first languages ih =>
    obtain ⟨hfirst, hrest⟩ := List.pairwise_cons.1 h
    obtain ⟨id', stats'⟩ := first
    rw [List.lookup_cons]
    by_cases heq : id = id'
    · subst heq
      have hnone : (id, stats) ∉ languages := fun hmem => (hfirst _ hmem).false
      simp [hnone, eq_comm]
    · simp [heq, beq_eq_false_iff_ne.2 heq, ih hrest]

/-- Languages in order are determined by what is found for each id. -/
theorem Ordered.ext (h : Ordered languages) (h' : Ordered languages')
    (hlookup : ∀ id, languages.lookup id = languages'.lookup id) : languages = languages' := by
  have : Std.Irrefl fun a b : String × LanguageStats => a.1 < b.1 := ⟨fun a => lt_irrefl a.1⟩
  have : Std.Antisymm fun a b : String × LanguageStats => a.1 < b.1 :=
    ⟨fun a b hab hba => (lt_asymm hab hba).elim⟩
  refine List.Pairwise.eq_of_mem_iff h h' fun ⟨id, stats⟩ => ?_
  rw [h.mem_iff, h'.mem_iff, hlookup]

/-- Where entries stand under the ids of their languages, these increase too. -/
theorem Ordered.pairwise_language (h : Ordered languages)
    (hkey : ∀ entry ∈ languages, entry.2.language = entry.1) :
    (languages.map Prod.snd).Pairwise fun a b => a.language < b.language := by
  refine List.pairwise_map.2 (h.imp_of_mem fun {a b} ha hb hlt => ?_)
  rwa [hkey a ha, hkey b hb]

/-- Inserting keeps the order and changes the entry of the id only. -/
theorem insert?_spec (h : Ordered languages) (hins : insert? id stats languages = .ok languages') :
    Ordered languages' ∧
      languages'.lookup id = (languages.lookup id).merge LanguageStats.plus (some stats) ∧
      ∀ other, other ≠ id → languages'.lookup other = languages.lookup other := by
  induction languages generalizing languages' with
  | nil =>
    cases hins
    refine ⟨List.pairwise_singleton _ _, List.lookup_cons_self, fun other hne => ?_⟩
    rw [List.lookup_cons, beq_eq_false_iff_ne.2 hne]
  | cons first rest ih =>
    obtain ⟨id₁, stats₁⟩ := first
    obtain ⟨hfirst, hrest⟩ := List.pairwise_cons.1 h
    rw [insert?] at hins
    rcases lt_trichotomy id id₁ with hlt | rfl | hgt
    · rw [if_pos hlt] at hins
      cases hins
      have hbelow : ∀ entry ∈ (id₁, stats₁) :: rest, id < entry.1 := by
        intro entry hentry
        rcases List.mem_cons.1 hentry with rfl | hentry
        · exact hlt
        · exact hlt.trans (hfirst entry hentry)
      refine ⟨List.pairwise_cons.2 ⟨hbelow, h⟩, ?_, fun other hne => ?_⟩
      · rw [lookup_eq_none_of_lt hbelow, List.lookup_cons_self]
        rfl
      · rw [List.lookup_cons, beq_eq_false_iff_ne.2 hne]
    · rw [if_neg (lt_irrefl id), if_pos rfl, bind_eq_ok_iff] at hins
      obtain ⟨new, hnew, hins⟩ := hins
      cases hins
      obtain ⟨-, rfl⟩ := LanguageStats.add?_eq_ok_iff.1 hnew
      refine ⟨List.pairwise_cons.2 ⟨hfirst, hrest⟩, ?_, fun other hne => ?_⟩
      · rw [List.lookup_cons_self, List.lookup_cons_self]
        rfl
      · rw [List.lookup_cons, List.lookup_cons, beq_eq_false_iff_ne.2 hne]
    · rw [if_neg hgt.not_gt, if_neg hgt.ne', bind_eq_ok_iff] at hins
      obtain ⟨more, hmore, hins⟩ := hins
      cases hins
      obtain ⟨hordered, hself, hother⟩ := ih hrest hmore
      refine ⟨List.pairwise_cons.2 ⟨fun entry hentry => ?_, hordered⟩, ?_, fun other hne => ?_⟩
      · by_cases heq : entry.1 = id
        · exact heq ▸ hgt
        · have hfound := hordered.mem_iff.1 hentry
          rw [hother _ heq] at hfound
          exact hfirst entry ((Ordered.mem_iff hrest).2 hfound)
      · rw [List.lookup_cons, List.lookup_cons, beq_eq_false_iff_ne.2 hgt.ne']
        exact hself
      · rw [List.lookup_cons, List.lookup_cons, hother other hne]

/-- Inserting fails only where the sum with the entry of the id does not fit. -/
theorem exists_insert?
    (hfits : ∀ known, languages.lookup id = some known → (known.plus stats).Fits) :
    ∃ languages', insert? id stats languages = .ok languages' := by
  induction languages with
  | nil => exact ⟨_, rfl⟩
  | cons first rest ih =>
    obtain ⟨id₁, stats₁⟩ := first
    rw [insert?]
    rcases lt_trichotomy id id₁ with hlt | rfl | hgt
    · exact ⟨_, if_pos hlt⟩
    · rw [if_neg (lt_irrefl id), if_pos rfl]
      have hnew := LanguageStats.add?_eq_ok_iff.2 ⟨hfits stats₁ List.lookup_cons_self, rfl⟩
      exact ⟨_, bind_eq_ok_iff.2 ⟨_, hnew, rfl⟩⟩
    · rw [if_neg hgt.not_gt, if_neg hgt.ne']
      rw [List.lookup_cons, beq_eq_false_iff_ne.2 hgt.ne'] at hfits
      obtain ⟨more, hmore⟩ := ih hfits
      exact ⟨_, bind_eq_ok_iff.2 ⟨more, hmore, rfl⟩⟩

end

/-! ## The sums of files -/

/-- A file as a tally takes it. -/
structure Item where
  language : String
  name : String
  counts : Counts

/-- The tally with further files. -/
def addAll (t : Tally) (items : List Item) : Except Fault Tally :=
  items.foldlM (fun t item => t.add? item.language item.name item.counts) t

/-- The number of files and the sums of their counts fit. -/
structure Fits (items : List Item) : Prop where
  few : items.length ≤ maxCount
  counts : (items.map Item.counts).sum.fits = true

/-- What the files of one language come to, under the name that came first. -/
def statsOf (items : List Item) (id : String) : Option LanguageStats :=
  (items.find? (·.language = id)).map fun first =>
    let own := items.filter (·.language = id)
    ⟨id, first.name, own.length, (own.map (·.counts)).sum⟩

/-- The tally sums up the files. -/
structure Sums (items : List Item) (t : Tally) : Prop where
  fileCount : t.fileCount = items.length
  total : t.total = (items.map (·.counts)).sum
  ordered : Ordered t.languages
  lookup : ∀ id, t.languages.lookup id = statsOf items id

/-- A tally is determined by the files that it sums up. -/
theorem Sums.unique {items : List Item} {t t' : Tally} (h : Sums items t) (h' : Sums items t') :
    t = t' := by
  obtain ⟨fileCount, total, languages⟩ := t
  obtain ⟨fileCount', total', languages'⟩ := t'
  obtain rfl : fileCount = fileCount' := h.fileCount.trans h'.fileCount.symm
  obtain rfl : total = total' := h.total.trans h'.total.symm
  obtain rfl : languages = languages' :=
    h.ordered.ext h'.ordered fun id => (h.lookup id).trans (h'.lookup id).symm
  rfl

section

variable {items : List Item} {item : Item} {t t' : Tally}

/-- The entry that a file makes by itself. -/
def Item.stats (item : Item) : LanguageStats :=
  ⟨item.language, item.name, 1, item.counts⟩

/-- A file is added when the number of files and the sums fit. -/
theorem add?_eq_ok_iff : t.add? item.language item.name item.counts = .ok t' ↔
    t.fileCount + 1 ≤ maxCount ∧ (t.total + item.counts).fits = true ∧
      ∃ languages, insert? item.language item.stats t.languages = .ok languages ∧
        t' = ⟨t.fileCount + 1, t.total + item.counts, languages⟩ := by
  simp only [add?, bind_eq_ok_iff, fitCount_eq_ok_iff, Counts.add?_eq_ok_iff]
  constructor
  · rintro ⟨_, ⟨hcount, rfl⟩, _, ⟨hfits, rfl⟩, languages, hins, h⟩
    exact ⟨hcount, hfits, languages, hins, (Except.ok.inj h).symm⟩
  · rintro ⟨hcount, hfits, languages, hins, rfl⟩
    exact ⟨_, ⟨hcount, rfl⟩, _, ⟨hfits, rfl⟩, languages, hins, rfl⟩

/-- Without a file a language comes to nothing. -/
theorem statsOf_of_find?_eq_none {id : String} (h : items.find? (·.language = id) = none) :
    statsOf items id = none ∧ items.filter (·.language = id) = [] :=
  ⟨by rw [statsOf, h, Option.map_none], List.filter_eq_nil_iff.2 (List.find?_eq_none.1 h)⟩

/-- What further files of a language come to is added to it. -/
theorem statsOf_append (items more : List Item) (id : String) :
    statsOf (items ++ more) id =
      (statsOf items id).merge LanguageStats.plus (statsOf more id) := by
  cases hfind : items.find? (·.language = id) with
  | none =>
    obtain ⟨hnone, hown⟩ := statsOf_of_find?_eq_none hfind
    rw [hnone, Option.merge_none_left, statsOf, List.find?_append, hfind, List.filter_append, hown]
    rfl
  | some first =>
    cases hmore : more.find? (·.language = id) with
    | none =>
      obtain ⟨hnone, hown⟩ := statsOf_of_find?_eq_none hmore
      rw [hnone, Option.merge_none_right, statsOf, List.find?_append, hmore, List.filter_append,
        hown, List.append_nil, Option.or_none]
      rfl
    | some second =>
      simp [statsOf, hfind, hmore, List.find?_append, List.filter_append, LanguageStats.plus]

theorem statsOf_singleton_self : statsOf [item] item.language = some item.stats := by
  simp [statsOf, Item.stats]

theorem statsOf_singleton_of_ne {id : String} (h : id ≠ item.language) :
    statsOf [item] id = none := by
  simp [statsOf, h.symm]

/-- One file more is summed up. -/
theorem Sums.add? (h : Sums items t)
    (hadd : t.add? item.language item.name item.counts = .ok t') : Sums (items ++ [item]) t' := by
  obtain ⟨-, -, languages, hins, rfl⟩ := add?_eq_ok_iff.1 hadd
  obtain ⟨hordered, hself, hother⟩ := insert?_spec h.ordered hins
  refine ⟨?_, ?_, hordered, fun id => ?_⟩
  · rw [List.length_append, ← h.fileCount]
    rfl
  · rw [List.map_append, List.sum_append, ← h.total]
    simp
  · rw [statsOf_append, ← h.lookup]
    by_cases heq : id = item.language
    · rw [heq, statsOf_singleton_self, hself]
    · rw [statsOf_singleton_of_ne heq, hother id heq, Option.merge_none_right]

/-- The first files fit if all do. -/
theorem Fits.left {more : List Item} (h : Fits (items ++ more)) : Fits items := by
  obtain ⟨few, counts⟩ := h
  rw [List.length_append] at few
  rw [List.map_append, List.sum_append] at counts
  exact ⟨(Nat.le_add_right ..).trans few, Counts.fits_of_fits_add counts⟩

/-- Whether files fit does not depend on their order. -/
theorem Fits.perm {items' : List Item} (h : Fits items) (hperm : items.Perm items') :
    Fits items' :=
  ⟨hperm.length_eq ▸ h.few, (hperm.map Item.counts).sum_eq ▸ h.counts⟩

/-- The sums over the files of a language are part of the sums over all files. -/
theorem Fits.statsOf {id : String} {stats : LanguageStats} (fits : Fits items)
    (h : statsOf items id = some stats) : stats.Fits := by
  obtain ⟨first, -, rfl⟩ := Option.map_eq_some_iff.1 h
  have hsplit := List.filter_append_perm (fun i : Item => i.language = id) items
  have hown := (fits.perm hsplit.symm).left
  exact ⟨hown.few, hown.counts⟩

/-- One file more is added when the files fit. -/
theorem Sums.exists_add? (h : Sums items t) (fits : Fits (items ++ [item])) :
    ∃ t', t.add? item.language item.name item.counts = .ok t' := by
  have hknown : ∀ known, t.languages.lookup item.language = some known →
      (known.plus item.stats).Fits := by
    intro known hknown
    refine fits.statsOf (?_ : Tally.statsOf (items ++ [item]) item.language = _)
    rw [statsOf_append, statsOf_singleton_self, ← h.lookup, hknown, Option.merge_some_some]
  obtain ⟨languages, hins⟩ := exists_insert? hknown
  obtain ⟨few, counts⟩ := fits
  rw [List.length_append, ← h.fileCount] at few
  rw [List.map_append, List.sum_append, ← h.total] at counts
  exact ⟨_, add?_eq_ok_iff.2 ⟨few, by simpa using counts, languages, hins, rfl⟩⟩

/-- Nothing is summed up in an empty tally. -/
theorem sums_nil : Sums [] {} :=
  ⟨rfl, rfl, List.Pairwise.nil, fun _ => rfl⟩

end

/-! ## The languages of a tally -/

section

variable {items : List Item} {t : Tally} {id : String} {stats : LanguageStats}

theorem language_of_statsOf (h : statsOf items id = some stats) : stats.language = id := by
  obtain ⟨first, -, rfl⟩ := Option.map_eq_some_iff.1 h
  rfl

/-- A language is there if it has a file. -/
theorem statsOf_isSome_iff : (statsOf items id).isSome = true ↔ id ∈ items.map Item.language := by
  simp [statsOf, List.find?_isSome]

/-- The languages are those of the files, each with its sums. -/
theorem Sums.mem_languageStats_iff (h : Sums items t) :
    stats ∈ t.languageStats ↔ statsOf items stats.language = some stats := by
  rw [languageStats, List.mem_map]
  constructor
  · rintro ⟨⟨id, _⟩, hmem, rfl⟩
    have hstats := (h.lookup id).symm.trans (h.ordered.mem_iff.1 hmem)
    rwa [language_of_statsOf hstats]
  · intro hstats
    exact ⟨(stats.language, stats), h.ordered.mem_iff.2 ((h.lookup _).trans hstats), rfl⟩

/-- A language is in the tally if it has a file. -/
theorem Sums.mem_language_iff (h : Sums items t) :
    id ∈ t.languageStats.map LanguageStats.language ↔ id ∈ items.map Item.language := by
  rw [← statsOf_isSome_iff, Option.isSome_iff_exists, List.mem_map]
  constructor
  · rintro ⟨stats, hmem, rfl⟩
    exact ⟨stats, h.mem_languageStats_iff.1 hmem⟩
  · rintro ⟨stats, hstats⟩
    obtain rfl := language_of_statsOf hstats
    exact ⟨stats, h.mem_languageStats_iff.2 hstats, rfl⟩

/-- The languages increase. -/
theorem Sums.pairwise_languageStats (h : Sums items t) :
    t.languageStats.Pairwise fun a b => a.language < b.language := by
  refine h.ordered.pairwise_language fun entry hentry => ?_
  exact language_of_statsOf ((h.lookup _).symm.trans (h.ordered.mem_iff.1 hentry))

end

/-! ## Adding up -/

/-- Files that are added one after the other are summed up. -/
theorem Sums.addAll {before items : List Item} {t t' : Tally} (h : Sums before t)
    (hadd : t.addAll items = .ok t') : Sums (before ++ items) t' := by
  induction items generalizing before t with
  | nil =>
    cases hadd
    rwa [List.append_nil]
  | cons item items ih =>
    rw [Tally.addAll, List.foldlM_cons, bind_eq_ok_iff] at hadd
    obtain ⟨next, hnext, hrest⟩ := hadd
    have hsums := ih (h.add? hnext) hrest
    rwa [List.append_assoc, List.singleton_append] at hsums

/-- Files that fit can be added up. -/
theorem Sums.exists_addAll {before items : List Item} {t : Tally} (h : Sums before t)
    (fits : Fits (before ++ items)) : ∃ t', t.addAll items = .ok t' := by
  induction items generalizing before t with
  | nil => exact ⟨t, rfl⟩
  | cons item items ih =>
    rw [List.append_cons] at fits
    obtain ⟨next, hnext⟩ := h.exists_add? fits.left
    obtain ⟨t', ht'⟩ := ih (h.add? hnext) fits
    exact ⟨t', bind_eq_ok_iff.2 ⟨next, hnext, ht'⟩⟩

/-- What was added up fits. -/
theorem fits_of_addAll {items : List Item} {t t' : Tally}
    (few : t.fileCount ≤ maxCount) (fits : t.total.fits = true)
    (hadd : t.addAll items = .ok t') : t'.fileCount ≤ maxCount ∧ t'.total.fits = true := by
  induction items generalizing t with
  | nil =>
    cases hadd
    exact ⟨few, fits⟩
  | cons item items ih =>
    rw [addAll, List.foldlM_cons, bind_eq_ok_iff] at hadd
    obtain ⟨next, hnext, hrest⟩ := hadd
    obtain ⟨hfew, hfits, _, -, rfl⟩ := add?_eq_ok_iff.1 hnext
    exact ih hfew hfits hrest

/-- Files can be added up exactly if they fit. -/
theorem exists_addAll_iff {items : List Item} :
    (∃ t, Tally.addAll {} items = .ok t) ↔ Fits items := by
  constructor
  · rintro ⟨t, hadd⟩
    have hsums : Sums items t := sums_nil.addAll hadd
    obtain ⟨few, counts⟩ := fits_of_addAll (Nat.zero_le _) (by decide) hadd
    exact ⟨hsums.fileCount ▸ few, hsums.total ▸ counts⟩
  · exact sums_nil.exists_addAll

end Tally

end SourceTally
