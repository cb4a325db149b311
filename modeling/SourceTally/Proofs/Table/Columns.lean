import SourceTally.Proofs.Count.Once
import SourceTally.Proofs.Count.Paths
import SourceTally.Proofs.File.Report
import SourceTally.Proofs.Tally.Steps
import SourceTally.Table.Basic

/-!
# Tables add up

The rows of a table of counts are those of the languages or those of the files, and its footer comes
from a sum that was kept apart from both. A result is balanced (`CountResult.Balanced`) if the three
agree and all counts in it add up, and a count that succeeds gives nothing else
(`FileTree.balanced_of_count`), called off or not.

What a table says is read from its texts: `Table.number?` takes the cell under a header for a
decimal number. Both tables show counts behind one other value in each row (`Table.Shows`), and
whatever table does so has the numbers of the counts under the headers (`Table.Shows.number?_row`).
`FileTree.count_tables` puts this together: the numbers add up in every column and in every row
(`Table.AddsUp`), and the two tables have the same numbers at the foot.
-/

namespace SourceTally

/-! ## What a count comes to -/

/-- What each of the files keeps holds of the tally after all of them. -/
theorem Tally.of_addAll {p : Tally → Prop} {t t' : Tally} {items : List Item}
    (hadd : ∀ item ∈ items, ∀ t t', p t →
      t.add? item.language item.name item.counts = .ok t' → p t')
    (ht : p t) (h : t.addAll items = .ok t') : p t' := by
  induction items generalizing t with
  | nil =>
    cases h
    exact ht
  | cons item items ih =>
    obtain ⟨next, hnext, hrest⟩ := bind_eq_ok_iff.1 h
    obtain ⟨hitem, hitems⟩ := List.forall_mem_cons.1 hadd
    exact ih hitems (hitem t next ht hnext) hrest

/-- The sums over the languages and over the files are those over all, and all counts add up. -/
structure CountResult.Balanced (r : CountResult) : Prop where
  fileCount : r.fileCount = (r.languages.map LanguageStats.fileCount).sum
  byLanguage : r.total = (r.languages.map LanguageStats.stats).sum
  byFile : r.total = (r.files.map FileStats.stats).sum
  language : ∀ l ∈ r.languages, l.stats.AddsUp
  file : ∀ f ∈ r.files, f.stats.AddsUp

/-- The categories of a file that was classified add up. -/
theorem Profile.addsUp_of_classifyFile {p : Profile} {policy : HeaderPolicy} {text : List Char}
    {report : FileReport} (h : p.classifyFile policy text = .ok report) :
    report.counts.AddsUp := by
  obtain ⟨⟨results, progress⟩, hpush, hfinish⟩ := bind_eq_ok_iff.1 h
  cases hfinish
  obtain ⟨scans, hpushes⟩ := Progress.pushAll_eq_ok_iff.1 hpush
  exact hpushes.addsUp

namespace FileTree

variable {t : FileTree} {registry : Registry} {policy : HeaderPolicy} {forced : Option Profile}
  {found : List Path} {outcomes : List FileOutcome} {r : CountResult}

/-- The counts of the files that were counted add up. -/
theorem Outcomes.addsUp (h : t.Outcomes registry policy forced found outcomes) :
    ∀ file ∈ outcomes.filterMap FileOutcome.file?, file.stats.AddsUp := by
  intro file hfile
  obtain ⟨path, -, profile, -, hcount⟩ := h.mem_files_iff.1 hfile
  obtain ⟨bytes, report, -, hreport, rfl⟩ := countAs_eq_ok_iff.1 hcount
  exact Profile.addsUp_of_classifyFile hreport

theorem Outcomes.balanced (h : t.Outcomes registry policy forced found outcomes)
    (hr : CountResult.ofOutcomes outcomes = .ok r) : r.Balanced := by
  obtain ⟨tally, hadd, rfl⟩ := CountResult.ofOutcomes_eq_ok_iff.1 hr
  have hsums : Tally.Sums (outcomes.filterMap FileOutcome.item?) tally :=
    Tally.sums_nil.addAll hadd
  have hsound : tally.Sound :=
    Tally.of_addAll (fun _ _ _ _ => Tally.Sound.add?) Tally.sound_empty hadd
  have hitems : ∀ counts ∈ (outcomes.filterMap FileOutcome.item?).map Tally.Item.counts,
      counts.AddsUp := by
    rw [FileOutcome.map_counts_item?]
    exact List.forall_mem_map.2 h.addsUp
  have hadds : tally.AddsUp :=
    Tally.of_addAll (fun _ hitem _ _ ht => ht.add? (List.forall_mem_map.1 hitems _ hitem))
      Tally.addsUp_empty hadd
  refine ⟨?_, ?_, ?_, List.forall_mem_map.2 hadds, h.addsUp⟩
  · rw [Tally.languageStats, List.map_map]
    exact hsound.fileCount
  · rw [Tally.languageStats, List.map_map]
    exact hsound.total
  · rw [hsums.total, FileOutcome.map_counts_item?]

/-- A count that succeeds gives a balanced result, at whichever files it was called off. -/
theorem balanced_of_count {options : CountOptions} {paths : List Path} {raised : Path → Bool}
    (h : t.count registry options paths raised = .ok r) : r.Balanced := by
  obtain ⟨forced, found, outcomes, taken, -, -, houtcomes, htaken, rfl⟩ :=
    count_raised_eq_ok_iff.1 h
  have hbalanced := houtcomes.balanced htaken
  exact ⟨hbalanced.fileCount, hbalanced.byLanguage, hbalanced.byFile, hbalanced.language,
    hbalanced.file⟩

end FileTree

/-- The values of the row are one of its own and the counts. -/
def TableRow.Shows (row : TableRow) (c : Counts) : Prop :=
  ∃ own, row.values = own :: c.cells

namespace Table

/-! ## Reading a table -/

/-- The number that decimal digits stand for. -/
def decimal? (text : String) : Option Nat :=
  if text.toList ≠ [] ∧ text.toList.all Char.isDigit = true then
    some (Nat.ofDigitChars 10 text.toList 0)
  else none

/-- The number under a header in a row. The first header is that of the labels. -/
def number? (t : Table) (header : String) (row : TableRow) : Option Nat := do
  let column ← t.headers.tail.idxOf? header
  let cell ← row.values[column]?
  decimal? cell

/-- A number reads as itself. -/
theorem decimal?_toString (n : Nat) : decimal? (toString n) = some n := by
  have hdigits : (toString n).toList = Nat.toDigits 10 n := by
    rw [Nat.toString_eq_ofList_toDigits, String.toList_ofList]
  rw [decimal?, hdigits, if_pos, Nat.ofDigitChars_ten_toDigits]
  refine ⟨Nat.toDigits_ne_nil, List.all_eq_true.2 fun c hc => ?_⟩
  exact Nat.isDigit_of_mem_toDigits (by decide) (by decide) hc

theorem number?_eq_some {t : Table} {header : String} {row : TableRow} {column n : Nat}
    (hcolumn : t.headers.tail.idxOf? header = some column)
    (hcell : row.values[column]? = some (toString n)) : t.number? header row = some n := by
  simp only [number?, hcolumn, hcell, Option.bind_eq_bind, Option.bind_some]
  exact decimal?_toString n

/-- The number at the foot of a column is the sum of the numbers above it. -/
def ColumnSums (t : Table) (header : String) : Prop :=
  ∃ numbers : List Nat, t.rows.map (t.number? header) = numbers.map some ∧
    t.number? header t.footer = some numbers.sum

/-- Every row, the footer among them, has a value for each header but the first. The columns have
their sums at the foot, and the total of every row is the sum of its categories. -/
structure AddsUp (t : Table) (columns : List String) : Prop where
  width : ∀ row ∈ t.rows ++ [t.footer], row.values.length + 1 = t.headers.length
  column : ∀ header ∈ columns, t.ColumnSums header
  total : ∀ row ∈ t.rows ++ [t.footer], ∃ code comment header blank,
    t.number? "Code" row = some code ∧ t.number? "Comment" row = some comment ∧
    t.number? "Header" row = some header ∧ t.number? "Blank" row = some blank ∧
    t.number? "Total" row = some (code + comment + header + blank)

/-! ## Tables of counts -/

/-- The headers of the numbers of lines, each with the number that it stands for. -/
def lineColumns : List (String × (Counts → Nat)) :=
  [("Code", Counts.code), ("Comment", Counts.comment), ("Header", Counts.header),
    ("Blank", Counts.blank), ("Total", Counts.total)]

section

variable {column : String × (Counts → Nat)} (hcolumn : column ∈ lineColumns)

include hcolumn

/-- Each of the numbers is added up by itself. -/
theorem sum_lineColumn (all : List Counts) : column.2 all.sum = (all.map column.2).sum := by
  have hadd : column.2 0 = 0 ∧ ∀ a b, column.2 (a + b) = column.2 a + column.2 b := by
    simp only [lineColumns, List.mem_cons, List.not_mem_nil, or_false] at hcolumn
    rcases hcolumn with rfl | rfl | rfl | rfl | rfl
    all_goals exact ⟨rfl, fun _ _ => rfl⟩
  induction all with
  | nil => exact hadd.1
  | cons c all ih => rw [List.sum_cons, hadd.2, ih, List.map_cons, List.sum_cons]

/-- The cells of counts stand in the order of the headers. -/
theorem exists_cell_lineColumn : ∃ i, countHeaders.idxOf? column.1 = some i ∧
    ∀ c : Counts, c.cells[i]? = some (toString (column.2 c)) := by
  simp only [lineColumns, List.mem_cons, List.not_mem_nil, or_false] at hcolumn
  rcases hcolumn with rfl | rfl | rfl | rfl | rfl
  · exact ⟨0, by decide, fun _ => rfl⟩
  · exact ⟨1, by decide, fun _ => rfl⟩
  · exact ⟨2, by decide, fun _ => rfl⟩
  · exact ⟨3, by decide, fun _ => rfl⟩
  · exact ⟨4, by decide, fun _ => rfl⟩

end

/-- The rows show counts, those of one entry each, and the footer shows counts as well. The value in
front of them stands under a header of its own. -/
structure Shows {α : Type} (t : Table) (entries : List α) (stats : α → Counts) (total : Counts) :
    Prop where
  headers : ∃ label own, t.headers = label :: own :: countHeaders ∧ own ∉ lineColumns.map Prod.fst
  rows : ∃ row : α → TableRow, t.rows = entries.map row ∧ ∀ a, (row a).Shows (stats a)
  footer : t.footer.Shows total

namespace Shows

variable {α : Type} {t : Table} {entries : List α} {stats : α → Counts} {total : Counts}

/-- Under the headers are the numbers of the counts. -/
theorem number?_row (h : t.Shows entries stats total) {column : String × (Counts → Nat)}
    (hcolumn : column ∈ lineColumns) {row : TableRow} {c : Counts} (hrow : row.Shows c) :
    t.number? column.1 row = some (column.2 c) := by
  obtain ⟨label, own, hheaders, hown⟩ := h.headers
  obtain ⟨value, hvalues⟩ := hrow
  obtain ⟨i, hi, hcell⟩ := exists_cell_lineColumn hcolumn
  have hne : own ≠ column.1 := fun heq => hown (heq ▸ List.mem_map_of_mem hcolumn)
  have hindex : t.headers.tail.idxOf? column.1 = some (i + 1) := by
    rw [hheaders, List.tail_cons, List.idxOf?_cons, if_neg (by simpa using hne), hi]
    rfl
  refine number?_eq_some hindex ?_
  rw [hvalues, List.getElem?_cons_succ]
  exact hcell c

variable (h : t.Shows entries stats total) (hsum : total = (entries.map stats).sum)
  (hadds : ∀ a ∈ entries, (stats a).AddsUp)

include h hsum hadds

/-- Every row shows counts that add up. -/
theorem exists_addsUp : ∀ row ∈ t.rows ++ [t.footer], ∃ c, row.Shows c ∧ c.AddsUp := by
  obtain ⟨rowOf, hrows, hshows⟩ := h.rows
  rw [List.forall_mem_append, hrows, List.forall_mem_map, List.forall_mem_singleton]
  refine ⟨fun a ha => ⟨stats a, hshows a, hadds a ha⟩, total, h.footer, ?_⟩
  rw [hsum]
  exact Counts.addsUp_sum (List.forall_mem_map.2 hadds)

/-- A table that shows counts and their sum adds up. -/
theorem addsUp : t.AddsUp (lineColumns.map Prod.fst) := by
  have hall := h.exists_addsUp hsum hadds
  refine ⟨fun row hrow => ?_, List.forall_mem_map.2 fun column hcolumn => ?_, fun row hrow => ?_⟩
  · obtain ⟨c, ⟨value, hvalues⟩, -⟩ := hall row hrow
    obtain ⟨label, own, hheaders, -⟩ := h.headers
    rw [hvalues, hheaders]
    rfl
  · obtain ⟨rowOf, hrows, hshows⟩ := h.rows
    refine ⟨entries.map fun a => column.2 (stats a), ?_, ?_⟩
    · rw [hrows, List.map_map, List.map_map]
      exact List.map_congr_left fun a _ => h.number?_row hcolumn (hshows a)
    · rw [h.number?_row hcolumn h.footer, hsum, sum_lineColumn hcolumn, List.map_map]
      rfl
  · obtain ⟨c, hc, hparts⟩ := hall row hrow
    have hnumber : ∀ column ∈ lineColumns, t.number? column.1 row = some (column.2 c) :=
      fun column hcolumn => h.number?_row hcolumn hc
    simp only [lineColumns, List.forall_mem_cons] at hnumber
    obtain ⟨hcode, hcomment, hheader, hblank, htotal, -⟩ := hnumber
    have horder : c.total = c.code + c.comment + c.header + c.blank := by
      unfold Counts.AddsUp at hparts
      omega
    exact ⟨_, _, _, _, hcode, hcomment, hheader, hblank, horder ▸ htotal⟩

end Shows

theorem shows_byLanguage (r : CountResult) :
    (byLanguage r).Shows r.languages LanguageStats.stats r.total :=
  ⟨⟨_, _, rfl, by decide⟩, ⟨_, rfl, fun _ => ⟨_, rfl⟩⟩, ⟨_, rfl⟩⟩

theorem shows_byFile (r : CountResult) : (byFile r).Shows r.files FileStats.stats r.total :=
  ⟨⟨_, _, rfl, by decide⟩, ⟨_, rfl, fun _ => ⟨_, rfl⟩⟩, ⟨_, rfl⟩⟩

/-- In the table of the languages the numbers of files add up too. -/
theorem columnSums_files {r : CountResult} (h : r.Balanced) :
    (byLanguage r).ColumnSums "Files" := by
  have hindex : (byLanguage r).headers.tail.idxOf? "Files" = some 0 := by
    rw [byLanguage, List.tail_cons, List.idxOf?_cons, if_pos (by decide)]
  refine ⟨r.languages.map LanguageStats.fileCount, ?_, ?_⟩
  · rw [byLanguage, List.map_map, List.map_map]
    exact List.map_congr_left fun l _ => number?_eq_some hindex rfl
  · rw [← h.fileCount]
    exact number?_eq_some hindex rfl

end Table

namespace FileTree

/-- The tables of a count that succeeds, with a row for each language or for each file, add up, at
whichever files the count was called off. Both have the numbers of lines of the whole count at the
foot. -/
theorem count_tables {t : FileTree} {registry : Registry} {options : CountOptions}
    {paths : List Path} {raised : Path → Bool} {r : CountResult}
    (h : t.count registry options paths raised = .ok r) :
    (Table.byLanguage r).rows.map TableRow.label = r.languages.map LanguageStats.name ∧
    (Table.byFile r).rows.map TableRow.label = r.files.map (·.path.text) ∧
    (Table.byLanguage r).AddsUp ["Files", "Code", "Comment", "Header", "Blank", "Total"] ∧
    (Table.byFile r).AddsUp ["Code", "Comment", "Header", "Blank", "Total"] ∧
    ∀ column ∈ Table.lineColumns,
      (Table.byLanguage r).number? column.1 (Table.byLanguage r).footer =
        some (column.2 r.total) ∧
      (Table.byFile r).number? column.1 (Table.byFile r).footer = some (column.2 r.total) := by
  have hbalanced := balanced_of_count h
  have hlanguages := Table.shows_byLanguage r
  have hfiles := Table.shows_byFile r
  have hlines := hlanguages.addsUp hbalanced.byLanguage hbalanced.language
  refine ⟨List.map_map .., List.map_map ..,
    ⟨hlines.width, List.forall_mem_cons.2 ⟨Table.columnSums_files hbalanced, hlines.column⟩,
      hlines.total⟩,
    hfiles.addsUp hbalanced.byFile hbalanced.file, fun column hcolumn => ?_⟩
  exact ⟨hlanguages.number?_row hcolumn hlanguages.footer,
    hfiles.number?_row hcolumn hfiles.footer⟩

/-- The file is left when it is found for the second time. -/
theorem count_nested_raised :
    nested.count (History.ofCalls [.register .curly]).registry {} ["src", "./src"]
        (fun p => decide p.Dotted) = .ok {
      fileCount := 1
      total := { code := 1, total := 1 }
      languages := [⟨"c", "C", 1, { code := 1, total := 1 }⟩]
      files := [⟨"src/main.c", "c", { code := 1, total := 1 }, []⟩]
      cancelled := true } := by
  have htaken : [Path.ofText "src/main.c", "./src/main.c"].filter (!decide ·.Dotted) =
      [Path.ofText "src/main.c"] := by decide
  have houtcomes : nested.Outcomes _ _ _ _ _ := .cons (outcome_nested (.inl rfl)) .nil
  rw [← htaken] at houtcomes
  exact count_raised_eq_ok_iff.2
    ⟨none, _, _, _, rfl, discoverAll_nested, houtcomes, rfl, rfl⟩

/-- The file that is counted twice makes two rows in one table and one row in the other. If the
count is called off in between, each table has one row. -/
theorem count_tables_nested :
    (∃ r : CountResult,
      nested.count (History.ofCalls [.register .curly]).registry {} ["src", "./src"] = .ok r ∧
      (Table.byLanguage r).AddsUp ["Files", "Code", "Comment", "Header", "Blank", "Total"] ∧
      (Table.byFile r).AddsUp ["Code", "Comment", "Header", "Blank", "Total"] ∧
      (Table.byLanguage r).rows.map ((Table.byLanguage r).number? "Code") = [some 2] ∧
      (Table.byFile r).rows.map ((Table.byFile r).number? "Code") = [some 1, some 1] ∧
      (Table.byFile r).number? "Code" (Table.byFile r).footer = some 2) ∧
    ∃ r : CountResult,
      nested.count (History.ofCalls [.register .curly]).registry {} ["src", "./src"]
        (fun p => decide p.Dotted) = .ok r ∧
      r.cancelled = true ∧
      (Table.byLanguage r).AddsUp ["Files", "Code", "Comment", "Header", "Blank", "Total"] ∧
      (Table.byFile r).AddsUp ["Code", "Comment", "Header", "Blank", "Total"] ∧
      (Table.byFile r).rows.map ((Table.byFile r).number? "Code") = [some 1] ∧
      (Table.byFile r).number? "Code" (Table.byFile r).footer = some 1 := by
  obtain ⟨-, -, hlanguages, hfiles, -⟩ := count_tables count_nested
  obtain ⟨-, -, hlanguages', hfiles', -⟩ := count_tables count_nested_raised
  exact ⟨⟨_, count_nested, hlanguages, hfiles, by decide, by decide, by decide⟩, _,
    count_nested_raised, rfl, hlanguages', hfiles', by decide, by decide⟩

end FileTree

end SourceTally
