import SourceTally.Proofs.Basic
import SourceTally.Table.Render

/-!
# The widths of a table

A row is shown in a column for its label and one for each of its values (`Table.SetsOut`). The label
is padded and cut to the width of its column, with room for two spaces; values are padded and never
cut, so a row can be wider than the line between the parts of the table. `Table.render_widths` says
how wide the columns and the rows are, and when the rows are all as wide as that line.
-/

namespace SourceTally

namespace Text

variable (width : Nat) (text : String)

@[simp]
theorem toList_fill (c : Char) (count : Nat) : (fill c count).toList = List.replicate count c :=
  String.toList_ofList

@[simp]
theorem length_fill (c : Char) (count : Nat) : (fill c count).length = count := by
  rw [← String.length_toList, toList_fill, List.length_replicate]

theorem toList_padRight : (padRight width text).toList =
    text.toList ++ List.replicate (width - text.length) ' ' := by
  rw [padRight, String.toList_append, toList_fill]

theorem toList_padLeft : (padLeft width text).toList =
    List.replicate (width - text.length) ' ' ++ text.toList := by
  rw [padLeft, String.toList_append, toList_fill]

/-- Padded texts are as wide as their columns, unless they were wider before. -/
theorem length_padRight : (padRight width text).length = max width text.length := by
  rw [padRight, String.length_append, length_fill]
  omega

theorem length_padLeft : (padLeft width text).length = max width text.length := by
  rw [padLeft, String.length_append, length_fill]
  omega

end Text

namespace Table

/-- The headers as a row. -/
def headerRow (t : Table) : TableRow :=
  ⟨t.headers.headD "", t.headers.tail⟩

/-- The rows as they are shown, from the headers to the footer. -/
def shownRows (t : Table) : List TableRow :=
  t.headerRow :: t.rows ++ [t.footer]

/-- A row as it is shown. -/
def line (t : Table) (row : TableRow) : String :=
  t.formatRow row.label row.values

/-! ## Labels -/

section

variable {room : Nat} {label : String}

theorem truncate_of_le (h : label.length ≤ room) : truncate room label = label :=
  if_neg h.not_gt

/-- A label that does not fit keeps its end. -/
theorem toList_truncate_of_lt (hroom : 2 ≤ room) (h : room < label.length) :
    (truncate room label).toList = '.' :: '.' :: label.toList.rtake (room - 2) := by
  have hdrop : label.length - room + 2 = label.toList.length - (room - 2) := by
    rw [String.length_toList]
    omega
  simp only [truncate, if_pos h, hdrop, String.toList_append, String.toList_ofList]
  rfl

theorem length_truncate_le (hroom : 2 ≤ room) : (truncate room label).length ≤ room := by
  rcases Nat.lt_or_ge room label.length with h | h
  · rw [← String.length_toList, toList_truncate_of_lt hroom h]
    simp only [List.length_cons, List.rtake_eq_reverse_take_reverse, List.length_reverse,
      List.length_take]
    omega
  · rwa [truncate_of_le h]

end

variable (t : Table)

theorem eight_le_labelRoom : 8 ≤ t.labelRoom :=
  Nat.le_max_left ..

theorem isGreatest_foldl_max (n : Nat) (ns : List Nat) :
    IsGreatest {m | m = n ∨ m ∈ ns} (ns.foldl max n) := by
  have hmax : (n :: ns).max? = some (ns.foldl max n) := List.max?_cons'
  obtain ⟨hmem, hle⟩ := List.max?_eq_some_iff.1 hmax
  exact ⟨List.mem_cons.1 hmem, fun m hm => hle m (List.mem_cons.2 hm)⟩

/-- The room for labels depends on the labels of the rows that are shown. -/
theorem labelRoom_eq :
    t.labelRoom = max 8 (min ((t.shownRows.map (·.label.length)).foldl max 0) 60) := by
  have hlongest : ((t.rows.map (·.label) ++ [t.footer.label] ++ t.headers.take 1).map
      String.length).foldl max 0 = (t.shownRows.map (·.label.length)).foldl max 0 := by
    rw [shownRows, headerRow]
    cases t.headers with
    | nil =>
      -- Without headers the first row has an empty label, which no label is shorter than.
      simp [Function.comp_def]
    | cons header headers =>
      simp only [List.cons_append, List.map_append, List.map_cons, List.map_map, List.map_nil,
        List.take_succ_cons, List.take_zero]
      exact (List.perm_append_singleton header.length _).foldl_eq 0
  rw [← hlongest]
  rfl

/-- It is the length of the longest of them, within bounds. -/
theorem exists_longest_label : ∃ longest,
    IsGreatest {n | ∃ row ∈ t.shownRows, row.label.length = n} longest ∧
      t.labelRoom = max 8 (min longest 60) := by
  obtain ⟨hmem, hle⟩ := isGreatest_foldl_max 0 (t.shownRows.map (·.label.length))
  have hshown : ∀ row ∈ t.shownRows, row.label.length ≤ _ := fun row hrow =>
    hle (.inr (List.mem_map.2 ⟨row, hrow, rfl⟩))
  refine ⟨_, ⟨?_, ?_⟩, t.labelRoom_eq⟩
  · rcases hmem with hzero | hmem
    · have hfooter : t.footer ∈ t.shownRows := List.mem_append_right _ (List.mem_singleton_self _)
      refine ⟨t.footer, hfooter, Nat.le_antisymm (hshown t.footer hfooter) ?_⟩
      exact hzero.le.trans (Nat.zero_le _)
    · exact List.mem_map.1 hmem
  · rintro n ⟨row, hrow, rfl⟩
    exact hshown row hrow

/-- The columns of values are wide enough for their headers and two spaces. -/
theorem isGreatest_cellWidth :
    IsGreatest {n | n = 10 ∨ ∃ header ∈ t.headers.tail, header.length + 2 = n} t.cellWidth := by
  have hwidth := isGreatest_foldl_max 10 ((t.headers.drop 1).map (·.length + 2))
  simp only [List.mem_map, List.drop_one] at hwidth
  rw [cellWidth, List.drop_one]
  exact hwidth

/-! ## Rows -/

/-- How a row stands in its columns. -/
structure SetsOut (row : TableRow) (line : String) : Prop where
  width : line.length = t.nameWidth + (row.values.map fun value => max t.cellWidth value.length).sum
  /-- The label, or its end behind two dots, is followed by two spaces at least. -/
  label : ∃ shown : List Char,
    line.toList.take t.nameWidth = shown ++ List.replicate (t.nameWidth - shown.length) ' ' ∧
    shown.length ≤ t.nameWidth - 2 ∧
    (row.label.length ≤ t.nameWidth - 2 → shown = row.label.toList) ∧
    (t.nameWidth - 2 < row.label.length →
      shown = '.' :: '.' :: row.label.toList.rtake (t.nameWidth - 4))
  values : line.toList.drop t.nameWidth = row.values.flatMap fun value =>
    List.replicate (t.cellWidth - value.length) ' ' ++ value.toList

theorem setsOut_line (row : TableRow) : t.SetsOut row (t.line row) := by
  have hroom := t.eight_le_labelRoom
  have hshown : (truncate t.labelRoom row.label).length ≤ t.labelRoom :=
    length_truncate_le (by omega)
  have hlabel : (Text.padRight t.nameWidth (truncate t.labelRoom row.label)).length =
      t.nameWidth := by
    rw [Text.length_padRight, nameWidth]
    omega
  have hline : (t.line row).toList =
      (Text.padRight t.nameWidth (truncate t.labelRoom row.label)).toList ++
        (String.join (row.values.map (Text.padLeft t.cellWidth))).toList := by
    rw [line, formatRow, String.toList_append]
  rw [← String.length_toList] at hlabel
  refine ⟨?_, ⟨(truncate t.labelRoom row.label).toList, ?_, ?_, fun hle => ?_, fun hlt => ?_⟩, ?_⟩
  · rw [← String.length_toList, hline, List.length_append, hlabel, String.length_toList,
      String.length_join, List.map_map]
    simp only [Function.comp_def, Text.length_padLeft]
  · rw [hline, List.take_left' hlabel, Text.toList_padRight, String.length_toList]
  · rw [String.length_toList]
    exact hshown
  · have hfits : row.label.length ≤ t.labelRoom := hle
    rw [truncate_of_le hfits]
  · exact toList_truncate_of_lt (by omega) hlt
  · rw [hline, List.drop_left' hlabel, String.toList_join, List.flatMap_map]
    simp only [Text.toList_padLeft]

/-! ## The table -/

theorem length_separator :
    t.separator.length = t.nameWidth + t.cellWidth * (t.headers.length - 1) :=
  Text.length_fill ..

section

variable {width : Nat} {values : List String}

theorem mul_length_le_sum_max :
    width * values.length ≤ (values.map fun value => max width value.length).sum := by
  induction values with
  | nil => exact Nat.le_refl _
  | cons value values ih =>
    rw [List.length_cons, Nat.mul_succ, List.map_cons, List.sum_cons]
    omega

/-- Columns that are no narrower than a width come to that width only if each of them does. -/
theorem sum_max_eq_iff :
    (values.map fun value => max width value.length).sum = width * values.length ↔
      ∀ value ∈ values, value.length ≤ width := by
  induction values with
  | nil => simp
  | cons value values ih =>
    have hrest := @mul_length_le_sum_max width values
    rw [List.forall_mem_cons, ← ih, List.length_cons, Nat.mul_succ, List.map_cons, List.sum_cons]
    omega

end

/-- A row that has a value for each header is as wide as the line between the parts if no value is
wider than its column. -/
theorem length_line_eq_iff {row : TableRow} (h : row.values.length = t.headers.length - 1) :
    (t.line row).length = t.separator.length ↔
      ∀ value ∈ row.values, value.length ≤ t.cellWidth := by
  rw [(t.setsOut_line row).width, length_separator, ← h, Nat.add_left_cancel_iff, sum_max_eq_iff]

/-- Without colours a table is shown as its rows, with lines below the headers and above the footer
and a title above all. -/
theorem renderLines_false : t.renderLines false =
    (t.title.elim [] fun title => [title, Text.fill '-' title.length]) ++
      [t.line t.headerRow, t.separator] ++ t.rows.map t.line ++
      (if t.rows = [] then [] else [t.separator]) ++ [t.line t.footer] := by
  simp only [renderLines, List.isEmpty_iff]
  cases t.title <;> rfl

/-- Without colours, every row that is shown stands in columns for its label and its values. The
column of labels has room for the longest label, within bounds, and two spaces. The columns of
values are all as wide as the longest of their headers asks for. If every row has a value for each
header, the rows are as wide as the line between the parts of the table if and only if no value is
wider than its column. -/
theorem render_widths :
    t.render false = String.join ((t.renderLines false).map (· ++ "\n")) ∧
    t.renderLines false =
      (t.title.elim [] fun title => [title, Text.fill '-' title.length]) ++
        [t.line t.headerRow, t.separator] ++ t.rows.map t.line ++
        (if t.rows = [] then [] else [t.separator]) ++ [t.line t.footer] ∧
    (∃ longest, IsGreatest {n | ∃ row ∈ t.shownRows, row.label.length = n} longest ∧
      t.nameWidth - 2 = max 8 (min longest 60)) ∧
    IsGreatest {n | n = 10 ∨ ∃ header ∈ t.headers.tail, header.length + 2 = n} t.cellWidth ∧
    (∀ row ∈ t.shownRows, t.SetsOut row (t.line row)) ∧
    ((∀ row ∈ t.rows ++ [t.footer], row.values.length = t.headers.length - 1) →
      ((∀ row ∈ t.shownRows, (t.line row).length = t.separator.length) ↔
        ∀ row ∈ t.shownRows, ∀ value ∈ row.values, value.length ≤ t.cellWidth)) := by
  refine ⟨rfl, t.renderLines_false, t.exists_longest_label, t.isGreatest_cellWidth,
    fun row _ => t.setsOut_line row, fun hvalues => forall₂_congr fun row hrow => ?_⟩
  refine t.length_line_eq_iff ?_
  rcases List.mem_cons.1 hrow with rfl | hrow
  · exact List.length_tail
  · exact hvalues row hrow

/-- A table with a label that is one letter too long, and with a value that is one digit wider than
its column. -/
def overfull : Table where
  headers := ["File", "Code"]
  rows := [⟨Text.fill 'x' 61, ["1"]⟩]
  footer := ⟨"Total", ["12345678901"]⟩

theorem render_widths_overfull :
    overfull.nameWidth = 62 ∧ overfull.cellWidth = 10 ∧ overfull.separator.length = 72 ∧
    (∀ row ∈ overfull.rows, (overfull.line row).toList.take 62 =
      '.' :: '.' :: List.replicate 58 'x' ++ [' ', ' '] ∧ (overfull.line row).length = 72) ∧
    (∀ row ∈ overfull.rows ++ [overfull.footer],
      row.values.length = overfull.headers.length - 1) ∧
    ¬ ∀ row ∈ overfull.shownRows, (overfull.line row).length = overfull.separator.length := by
  have hname : overfull.nameWidth = 62 := by decide
  have hcell : overfull.cellWidth = 10 := by decide
  have hvalues : ∀ row ∈ overfull.rows ++ [overfull.footer],
      row.values.length = overfull.headers.length - 1 := by decide
  obtain ⟨-, -, -, -, hrows, haligned⟩ := render_widths overfull
  refine ⟨hname, hcell, ?_, fun row hrow => ?_, hvalues, ?_⟩
  · rw [length_separator, hname, hcell]
    rfl
  · have hline := hrows row (by simp [shownRows, hrow])
    obtain rfl : row = ⟨Text.fill 'x' 61, ["1"]⟩ := List.mem_singleton.1 hrow
    obtain ⟨shown, htake, -, -, hcut⟩ := hline.label
    have hwidth := hline.width
    rw [hname] at htake hcut hwidth
    rw [hcell] at hwidth
    have hshown := hcut (by decide)
    rw [Text.toList_fill] at hshown
    refine ⟨?_, hwidth⟩
    rw [htake, hshown]
    decide
  · rw [haligned hvalues]
    decide

end Table

end SourceTally
