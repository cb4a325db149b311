import SourceTally.Proofs.Tally.Merge
import SourceTally.Proofs.Text.Bytes

/-!
# Tallies step by step

A number of tallies is added to and merged in any order. What an insertion can do to the languages
is said once (`Tally.insert?_cases`): an entry is put between others, or one entry is replaced by
its sum with the new one. So a sum over the languages grows by what is inserted
(`Tally.sum_insert?`), and what holds of all entries and of sums of them goes on to hold
(`Tally.forall_insert?`). From this each operation keeps a tally sound (`Tally.Sound`), with the
overall sums those of the languages, and whatever all operations keep holds of every tally after any
number of steps (`Tally.of_applyAll?`). `Tally.applyAll?_sound` says what follows for every tally.
-/

namespace SourceTally.Tally

variable {languages languages' more : List (String × LanguageStats)} {id : String}
  {stats : LanguageStats} {item : Item} {a b c t t' : Tally}

/-! ## Inserting -/

/-- Inserting puts the entry between others, or replaces the entry of the id by the sum. -/
theorem insert?_cases (hins : insert? id stats languages = .ok languages') :
    ∃ before after, languages = before ++ after ∧ languages' = before ++ (id, stats) :: after ∨
      ∃ known, languages = before ++ (id, known) :: after ∧
        languages' = before ++ (id, known.plus stats) :: after := by
  induction languages generalizing languages' with
  | nil =>
    cases hins
    exact ⟨[], [], .inl ⟨rfl, rfl⟩⟩
  | cons first rest ih =>
    obtain ⟨id₁, stats₁⟩ := first
    rw [insert?] at hins
    rcases lt_trichotomy id id₁ with hlt | rfl | hgt
    · rw [if_pos hlt] at hins
      cases hins
      exact ⟨[], _, .inl ⟨rfl, rfl⟩⟩
    · rw [if_neg (lt_irrefl id), if_pos rfl, bind_eq_ok_iff] at hins
      obtain ⟨new, hnew, hins⟩ := hins
      cases hins
      obtain ⟨-, rfl⟩ := LanguageStats.add?_eq_ok_iff.1 hnew
      exact ⟨[], rest, .inr ⟨stats₁, rfl, rfl⟩⟩
    · rw [if_neg hgt.not_gt, if_neg hgt.ne', bind_eq_ok_iff] at hins
      obtain ⟨new, hnew, hins⟩ := hins
      cases hins
      obtain ⟨before, after, ⟨rfl, rfl⟩ | ⟨known, rfl, rfl⟩⟩ := ih hnew
      · exact ⟨(id₁, stats₁) :: before, after, .inl ⟨rfl, rfl⟩⟩
      · exact ⟨(id₁, stats₁) :: before, after, .inr ⟨known, rfl, rfl⟩⟩

section

variable {α : Type} [AddCommMonoid α] {part : LanguageStats → α}
  (hpart : ∀ a b : LanguageStats, part (a.plus b) = part a + part b)

include hpart

/-- A sum over the languages grows by what is inserted. -/
theorem sum_insert? (hins : insert? id stats languages = .ok languages') :
    (languages'.map fun entry => part entry.2).sum =
      (languages.map fun entry => part entry.2).sum + part stats := by
  obtain ⟨before, after, ⟨rfl, rfl⟩ | ⟨known, rfl, rfl⟩⟩ := insert?_cases hins
  · simp only [List.map_append, List.sum_append, List.map_cons, List.sum_cons]
    abel
  · simp only [List.map_append, List.sum_append, List.map_cons, List.sum_cons, hpart]
    abel

/-- Inserting one entry after another, it grows by all of them. -/
theorem sum_insertAll
    (hins : more.foldlM (fun l entry => insert? entry.1 entry.2 l) languages = .ok languages') :
    (languages'.map fun entry => part entry.2).sum =
      (languages.map fun entry => part entry.2).sum + (more.map fun entry => part entry.2).sum := by
  induction more generalizing languages with
  | nil =>
    cases hins
    exact (add_zero _).symm
  | cons first more ih =>
    rw [List.foldlM_cons, bind_eq_ok_iff] at hins
    obtain ⟨next, hnext, hins⟩ := hins
    rw [ih hins, sum_insert? hpart hnext, List.map_cons, List.sum_cons, add_assoc]

end

section

variable {p : String × LanguageStats → Prop}
  (hplus : ∀ id a b, p (id, a) → p (id, b) → p (id, LanguageStats.plus a b))

include hplus

/-- What holds of all entries, and of the sum of two if it holds of both, holds after inserting. -/
theorem forall_insert? (hall : ∀ entry ∈ languages, p entry) (hnew : p (id, stats))
    (hins : insert? id stats languages = .ok languages') : ∀ entry ∈ languages', p entry := by
  obtain ⟨before, after, ⟨rfl, rfl⟩ | ⟨known, rfl, rfl⟩⟩ := insert?_cases hins
  · simp only [List.forall_mem_append, List.forall_mem_cons] at hall ⊢
    exact ⟨hall.1, hnew, hall.2⟩
  · simp only [List.forall_mem_append, List.forall_mem_cons] at hall ⊢
    exact ⟨hall.1, hplus id known stats hall.2.1 hnew, hall.2.2⟩

theorem forall_insertAll (hall : ∀ entry ∈ languages, p entry) (hmore : ∀ entry ∈ more, p entry)
    (hins : more.foldlM (fun l entry => insert? entry.1 entry.2 l) languages = .ok languages') :
    ∀ entry ∈ languages', p entry := by
  induction more generalizing languages with
  | nil =>
    cases hins
    exact hall
  | cons first more ih =>
    obtain ⟨hfirst, hmore⟩ := List.forall_mem_cons.1 hmore
    rw [List.foldlM_cons, bind_eq_ok_iff] at hins
    obtain ⟨next, hnext, hins⟩ := hins
    exact ih (forall_insert? hplus hall hfirst hnext) hmore hins

end

/-! ## Sound tallies -/

/-- The overall sums are those of the languages and fit, and the languages stand in order under
their ids. -/
structure Sound (t : Tally) : Prop where
  fileCount : t.fileCount = (t.languages.map fun entry => entry.2.fileCount).sum
  total : t.total = (t.languages.map fun entry => entry.2.stats).sum
  fits : t.total.fits = true
  key : ∀ entry ∈ t.languages, entry.2.language = entry.1
  ordered : Ordered t.languages

/-- The counts of every language add up. -/
def AddsUp (t : Tally) : Prop :=
  ∀ entry ∈ t.languages, entry.2.stats.AddsUp

theorem sound_empty : Sound {} :=
  ⟨rfl, rfl, by decide, by simp, List.Pairwise.nil⟩

theorem addsUp_empty : AddsUp {} :=
  List.forall_mem_nil _

theorem Sound.add? (h : t.Sound) (hadd : t.add? item.language item.name item.counts = .ok t') :
    t'.Sound := by
  obtain ⟨-, hfits, languages, hins, rfl⟩ := add?_eq_ok_iff.1 hadd
  refine ⟨?_, ?_, hfits, ?_, (insert?_spec h.ordered hins).1⟩
  · rw [sum_insert? (fun _ _ => rfl) hins, ← h.fileCount]
    rfl
  · rw [sum_insert? (fun _ _ => rfl) hins, ← h.total]
    rfl
  · exact forall_insert? (fun _ _ _ ha _ => ha) h.key rfl hins

theorem Sound.merge? (h : a.Sound) (h' : b.Sound) (hmerge : a.merge? b = .ok c) : c.Sound := by
  obtain ⟨-, hfits, languages, hins, rfl⟩ := merge?_eq_ok_iff.1 hmerge
  refine ⟨?_, ?_, hfits, ?_, (insertAll_spec h.ordered h'.ordered hins).1⟩
  · rw [sum_insertAll (fun _ _ => rfl) hins, ← h.fileCount, ← h'.fileCount]
  · rw [sum_insertAll (fun _ _ => rfl) hins, ← h.total, ← h'.total]
  · exact forall_insertAll (fun _ _ _ ha _ => ha) h.key h'.key hins

theorem AddsUp.add? (h : t.AddsUp) (hitem : item.counts.AddsUp)
    (hadd : t.add? item.language item.name item.counts = .ok t') : t'.AddsUp := by
  obtain ⟨-, -, languages, hins, rfl⟩ := add?_eq_ok_iff.1 hadd
  exact forall_insert? (fun _ _ _ ha hb => ha.add hb) h hitem hins

theorem AddsUp.merge? (h : a.AddsUp) (h' : b.AddsUp) (hmerge : a.merge? b = .ok c) : c.AddsUp := by
  obtain ⟨-, -, languages, hins, rfl⟩ := merge?_eq_ok_iff.1 hmerge
  exact forall_insertAll (fun _ _ _ ha hb => ha.add hb) h h' hins

/-- In a sound tally, counts that add up are consistent: their totals fit, being part of a total
that does. -/
theorem Sound.consistent (h : t.Sound) (hadds : t.AddsUp) :
    t.total.consistent? = .ok true ∧
      ∀ stats ∈ t.languageStats, stats.stats.consistent? = .ok true := by
  have htotal : ∀ {counts : Counts}, counts.fits = true → counts.total ≤ maxCount := by
    intro counts hfits
    simp only [Counts.fits, Bool.and_eq_true, decide_eq_true_eq] at hfits
    exact hfits.2
  constructor
  · refine Counts.consistent?_eq_ok_true_iff.2 ⟨htotal h.fits, ?_⟩
    rw [h.total]
    exact Counts.addsUp_sum (List.forall_mem_map.2 hadds)
  · intro stats hstats
    obtain ⟨entry, hentry, rfl⟩ := List.mem_map.1 hstats
    have hfits : entry.2.stats.fits = true :=
      Counts.fits_of_mem (h.total ▸ h.fits) (List.mem_map.2 ⟨entry, hentry, rfl⟩)
    exact Counts.consistent?_eq_ok_true_iff.2 ⟨htotal hfits, hadds entry hentry⟩

/-! ## Steps -/

/-- A step with a number of tallies: a file is added to one of them, or a copy of one is merged into
one of them, which may be the same. -/
inductive Step (ι : Type) where
  | add (target : ι) (item : Item)
  | merge (target source : ι)

section

variable {ι : Type} [DecidableEq ι] {tallies tallies' : ι → Tally} {steps : List (Step ι)}

/-- The tallies after a step. -/
def Step.apply? (tallies : ι → Tally) : Step ι → Except Fault (ι → Tally)
  | add target item => do
    let t ← (tallies target).add? item.language item.name item.counts
    return Function.update tallies target t
  | merge target source => do
    let t ← (tallies target).merge? (tallies source)
    return Function.update tallies target t

/-- The tallies after several steps. -/
def applyAll? (tallies : ι → Tally) (steps : List (Step ι)) : Except Fault (ι → Tally) :=
  steps.foldlM Step.apply? tallies

/-- What holds of all tallies holds after a step that keeps it in the tally that it changes. -/
theorem of_apply? {p : Tally → Prop} {step : Step ι}
    (hadd : ∀ target item, step = .add target item → ∀ t t', p t →
      t.add? item.language item.name item.counts = .ok t' → p t')
    (hmerge : ∀ a b c, p a → p b → a.merge? b = .ok c → p c) (hall : ∀ i, p (tallies i))
    (h : step.apply? tallies = .ok tallies') : ∀ i, p (tallies' i) := by
  have hupdate : ∀ target t, p t → ∀ i, p (Function.update tallies target t i) := by
    intro target t ht
    exact (Function.forall_update_iff tallies fun _ t => p t).2 ⟨ht, fun i _ => hall i⟩
  cases step with
  | add target item =>
    obtain ⟨t, ht, h⟩ := bind_eq_ok_iff.1 h
    cases h
    exact hupdate target t (hadd target item rfl _ t (hall target) ht)
  | merge target source =>
    obtain ⟨t, ht, h⟩ := bind_eq_ok_iff.1 h
    cases h
    exact hupdate target t (hmerge _ _ t (hall target) (hall source) ht)

/-- What all the steps keep holds of every tally after them. -/
theorem of_applyAll? {p : Tally → Prop}
    (hadd : ∀ target item, .add target item ∈ steps → ∀ t t', p t →
      t.add? item.language item.name item.counts = .ok t' → p t')
    (hmerge : ∀ a b c, p a → p b → a.merge? b = .ok c → p c) (hall : ∀ i, p (tallies i))
    (h : applyAll? tallies steps = .ok tallies') : ∀ i, p (tallies' i) := by
  induction steps generalizing tallies with
  | nil =>
    cases h
    exact hall
  | cons step steps ih =>
    obtain ⟨next, hnext, hrest⟩ := bind_eq_ok_iff.1 h
    refine ih (fun target item hmem => hadd target item (List.mem_cons_of_mem _ hmem)) ?_ hrest
    refine of_apply? (fun target item hstep => hadd target item ?_) hmerge hall hnext
    rw [hstep]
    exact List.mem_cons_self

/-- Whatever files are added to empty tallies and however these are merged, in every tally the
overall sums are those of the languages, each language stands under its id, and the ids increase by
their bytes. If all counts that were added are consistent, so are those of the tally and of each of
its languages. -/
theorem applyAll?_sound (h : applyAll? (fun _ => {}) steps = .ok tallies) (i : ι) :
    (tallies i).fileCount = ((tallies i).languageStats.map LanguageStats.fileCount).sum ∧
    (tallies i).total = ((tallies i).languageStats.map LanguageStats.stats).sum ∧
    (∀ entry ∈ (tallies i).languages, entry.2.language = entry.1) ∧
    (tallies i).languageStats.Pairwise
      (fun a b => Text.bytes a.language < Text.bytes b.language) ∧
    ((∀ target item, .add target item ∈ steps → item.counts.consistent? = .ok true) →
      (tallies i).total.consistent? = .ok true ∧
        ∀ stats ∈ (tallies i).languageStats, stats.stats.consistent? = .ok true) := by
  have hsound : (tallies i).Sound :=
    of_applyAll? (p := Sound) (fun _ _ _ _ _ => Sound.add?) (fun _ _ _ => Sound.merge?)
      (fun _ => sound_empty) h i
  refine ⟨?_, ?_, hsound.key, ?_, fun hconsistent => ?_⟩
  · rw [languageStats, List.map_map]
    exact hsound.fileCount
  · rw [languageStats, List.map_map]
    exact hsound.total
  · exact (hsound.ordered.pairwise_language hsound.key).imp Text.bytes_lt_of_lt
  · refine hsound.consistent (of_applyAll? (p := AddsUp) ?_ (fun _ _ _ => AddsUp.merge?)
      (fun _ => addsUp_empty) h i)
    intro target item hmem t t' hadds
    exact hadds.add? (Counts.consistent?_eq_ok_true_iff.1 (hconsistent target item hmem)).2

/-- Two tallies, one of which is merged into the other and then into itself. -/
theorem applyAll?_sound_doubled : ∃ tallies : Bool → Tally,
    applyAll? (fun _ => {}) [.add true ⟨"c", "C", .one .code⟩,
      .add false ⟨"c", "See", .one .header⟩, .add false ⟨"ada", "Ada", .one .blank⟩,
      .merge true false, .merge true true] = .ok tallies ∧
    (tallies true).languageStats = [⟨"ada", "Ada", 2, { blank := 2, total := 2 }⟩,
      ⟨"c", "C", 4, { code := 2, header := 2, total := 4 }⟩] ∧
    (tallies true).fileCount = ((tallies true).languageStats.map LanguageStats.fileCount).sum ∧
    (tallies true).total.consistent? = .ok true := by
  obtain ⟨tallies, h, hstats⟩ : ∃ tallies : Bool → Tally,
      applyAll? (fun _ => {}) [.add true ⟨"c", "C", .one .code⟩,
        .add false ⟨"c", "See", .one .header⟩, .add false ⟨"ada", "Ada", .one .blank⟩,
        .merge true false, .merge true true] = .ok tallies ∧
      (tallies true).languageStats = [⟨"ada", "Ada", 2, { blank := 2, total := 2 }⟩,
        ⟨"c", "C", 4, { code := 2, header := 2, total := 4 }⟩] :=
    ⟨_, rfl, rfl⟩
  obtain ⟨hcount, -, -, -, hconsistent⟩ := applyAll?_sound h true
  refine ⟨tallies, h, hstats, hcount, (hconsistent ?_).1⟩
  simp only [List.mem_cons, List.not_mem_nil, or_false]
  rintro target item (hstep | hstep | hstep | hstep | hstep) <;> cases hstep <;> decide

end

end SourceTally.Tally
