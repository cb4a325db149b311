import SourceTally.Proofs.File.Push
import SourceTally.Proofs.Scan.Open

/-!
# The line of the last warning

A file that ends inside a comment or a string gets a last warning, which names a line as the one on
which the construct was opened. The progress through a file knows that line only from the states at
the ends of lines: as long as every line ends inside a construct of one kind, the line of the first
of them is kept. Against the line on which the construct really was opened (`Profile.OpenedOn`) this
is right exactly when that line did not begin inside a construct of the same kind; otherwise the
warning names an earlier line (`Progress.openWarning_line_iff`).
-/

namespace SourceTally.Progress

variable {p : Profile} {policy : HeaderPolicy} {progress last : Progress} {lines : List (List Char)}
  {results : List LineResult} {scans : List ScannedLine} {number : Nat} {entry : ScanState}

/-- `known` is the line that a progress keeps for the constructs that `inside` tells. -/
structure Tracks (inside : ScanState → Bool) (known : Progress → Option Nat) : Prop where
  normal : inside .normal = false
  opened : ∀ state : ScanState, inside state.opened = inside state
  after : ∀ (policy : HeaderPolicy) (progress : Progress) (line : List Char)
    (scanned : ScannedLine) (counts : Counts),
    known (progress.after policy line scanned counts) =
      openedAt (inside progress.state) (inside scanned.state) (known progress) (progress.lines + 1)

/-- Block comments are tracked. -/
theorem tracks_block : Tracks ScanState.isInBlock Progress.blockOpenedAt where
  normal := rfl
  opened state := by cases state <;> rfl
  after _ _ _ _ _ := rfl

/-- Strings are tracked. -/
theorem tracks_string : Tracks ScanState.isInString Progress.stringOpenedAt where
  normal := rfl
  opened state := by cases state <;> rfl
  after _ _ _ _ _ := rfl

section

variable {inside : ScanState → Bool} {known : Progress → Option Nat}

/-- States inside the same construct are both inside. -/
theorem Tracks.inside_eq (tracks : Tracks inside known) {a b : ScanState}
    (h : a.opened = b.opened) : inside a = inside b := by
  rw [← tracks.opened a, h, tracks.opened b]

/-- A line that leaves a tracked construct open keeps the line that is known, or becomes it. -/
theorem Tracks.exists_known_after (tracks : Tracks inside known) {P : Nat → Prop}
    {line : List Char} {scanned : ScannedLine} {counts : Counts}
    (hnext : inside scanned.state = true)
    (hkept : inside progress.state = true → ∃ r, known progress = some r ∧ P r)
    (hnew : P (progress.lines + 1)) :
    ∃ r, known (progress.after policy line scanned counts) = some r ∧ P r := by
  rw [tracks.after, hnext]
  cases hstate : inside progress.state with
  | false => exact ⟨progress.lines + 1, rfl, hnew⟩
  | true =>
    obtain ⟨r, hr, hP⟩ := hkept hstate
    rw [hr]
    exact ⟨r, rfl, hP⟩

/-- Inside a tracked construct a line is known, one of the lines so far. -/
def Knows (inside : ScanState → Bool) (known : Progress → Option Nat) (progress : Progress) :
    Prop :=
  inside progress.state = true → ∃ r, known progress = some r ∧ r ≤ progress.lines

/-- A line keeps a line known. -/
theorem Tracks.knows_after (tracks : Tracks inside known) (h : Knows inside known progress)
    (line : List Char) (scanned : ScannedLine) (counts : Counts) :
    Knows inside known (progress.after policy line scanned counts) := by
  intro hnext
  refine tracks.exists_known_after hnext (fun hstate => ?_) (Nat.le_refl _)
  obtain ⟨r, hr, hle⟩ := h hstate
  exact ⟨r, hr, Nat.le_succ_of_le hle⟩

/-- Lines that hold a construct keep the line that is known. -/
theorem Tracks.known_of_holds (tracks : Tracks inside known) (valid : p.Valid)
    (h : Pushes p policy progress lines results scans last)
    (holds : p.Holds progress.state lines last.state) (hstate : inside progress.state = true)
    {r : Nat} (hr : known progress = some r) : known last = some r := by
  induction h with
  | nil => exact hr
  | cons hscan _ _ ih =>
    cases holds with
    | cons hline hmore =>
      obtain rfl := hline.state_eq valid hscan
      have hsame := (Profile.Holds.cons hline hmore).opened_eq
      have hnext := tracks.inside_eq (hmore.opened_eq.symm.trans hsame)
      refine ih hmore (hnext.trans hstate) ?_
      rw [tracks.after, hnext, hstate, hr]
      rfl

/-- The line known at the end is at most the one on which the open construct was opened, and that
one exactly when it did not begin inside a construct of the kind. -/
theorem Tracks.known_of_openedOn (tracks : Tracks inside known) (valid : p.Valid)
    (h : Pushes p policy progress lines results scans last)
    (opened : p.OpenedOn last.state progress.state lines number entry)
    (hlast : inside last.state = true) (knows : Knows inside known progress) :
    ∃ r, known last = some r ∧ r ≤ progress.lines + number ∧
      (r = progress.lines + number ↔ inside entry = false) := by
  induction h generalizing number with
  | nil => cases opened
  | @cons progress last line lines results scanned scans counts hscan _ hpushes ih =>
    cases opened with
    | here hopens hholds =>
      obtain rfl := hopens.state_eq valid hscan
      have hnext : inside scanned.state = true :=
        (tracks.inside_eq hholds.opened_eq).symm.trans hlast
      have keep : ∀ {r : Nat}, known (progress.after policy line scanned counts) = some r →
          known last = some r := fun hr => tracks.known_of_holds valid hpushes hholds hnext hr
      have hafter := tracks.after policy progress line scanned counts
      rw [hnext] at hafter
      cases hstate : inside progress.state with
      | false =>
        rw [hstate] at hafter
        exact ⟨_, keep hafter, Nat.le_refl _, iff_of_true rfl rfl⟩
      | true =>
        obtain ⟨r, hr, hle⟩ := knows hstate
        rw [hstate, hr] at hafter
        exact ⟨r, keep hafter, by omega, iff_of_false (by omega) nofun⟩
    | @later _ _ _ _ _ number hscan' hopened =>
      cases hscan.symm.trans hscan'
      have hle : (progress.after policy line scanned counts).lines + number =
          progress.lines + (number + 1) := by simp only [Progress.after]; omega
      rw [← hle]
      exact ih hopened hlast (tracks.knows_after knows line scanned counts)

/-- The same for a whole file. -/
theorem Tracks.known_of_start (tracks : Tracks inside known) (valid : p.Valid)
    (h : Pushes p policy (.start policy) lines results scans last)
    (opened : p.OpenedOn last.state .normal lines number entry) (hlast : inside last.state = true) :
    ∃ r, known last = some r ∧ r ≤ number ∧ (r = number ↔ inside entry = false) := by
  have knows : Knows inside known (.start policy) := fun hstart =>
    nomatch tracks.normal.symm.trans hstart
  obtain ⟨r, hr, hle, hiff⟩ := tracks.known_of_openedOn valid h opened hlast knows
  have hlines : (Progress.start policy).lines + number = number := Nat.zero_add number
  rw [hlines] at hle hiff
  exact ⟨r, hr, hle, hiff⟩

end

/-- What is open at the end of the file gives the last warning. -/
theorem getLast?_warnings_finish {w : Warning} (h : progress.openWarning = some w) :
    progress.finish.warnings.getLast? = some w := by
  simp [finish, h]

/-- The last warning about what is left open, for every file. The construct was opened on exactly
one line; the warning names that line if the line did not begin inside a construct of the same kind,
and an earlier line if it did. -/
theorem openWarning_line_iff (p : Profile) (policy : HeaderPolicy) (lines : List (List Char))
    (valid : p.Valid) (few : lines.length < 2 ^ 32) (short : Text.totalBytes lines < 2 ^ 32) :
    ∃ results progress, pushAll p policy (.start policy) lines = .ok (results, progress) ∧
      (progress.state ≠ .normal → ∃ number entry r,
        p.OpenedOn progress.state .normal lines number entry ∧
        (∀ number' entry', p.OpenedOn progress.state .normal lines number' entry' →
          number' = number) ∧
        (progress.state.isInBlock = true →
          progress.finish.warnings.getLast? = some (.unterminatedBlock r)) ∧
        (progress.state.isInString = true →
          progress.finish.warnings.getLast? = some (.unterminatedString r)) ∧
        r ≤ number ∧ (r = number ↔ entry.alike progress.state = false)) := by
  obtain ⟨results, scans, progress, hpushes⟩ := exists_pushes valid policy few short
  refine ⟨results, progress, pushAll_eq_ok_iff.2 ⟨scans, hpushes⟩, fun hopen => ?_⟩
  obtain ⟨number, entry, hopened⟩ := Profile.exists_openedOn valid hpushes.scanLines hopen
  have unique : ∀ number' entry', p.OpenedOn progress.state .normal lines number' entry' →
      number' = number := fun _ _ h => (h.unique valid hopened).1
  cases hstate : progress.state with
  | normal => exact absurd hstate hopen
  | inBlock pair depth =>
    obtain ⟨r, hr, hle, hiff⟩ :=
      tracks_block.known_of_start valid hpushes hopened (by rw [hstate]; rfl)
    have hwarning : progress.openWarning = some (.unterminatedBlock r) := by
      simp [openWarning, hstate, hr]
    rw [hstate] at hopened unique
    refine ⟨number, entry, r, hopened, unique, fun _ => getLast?_warnings_finish hwarning, nofun,
      hle, hiff.trans ?_⟩
    simp [ScanState.alike, ScanState.isInBlock, ScanState.isInString]
  | inString pair escaped =>
    obtain ⟨r, hr, hle, hiff⟩ :=
      tracks_string.known_of_start valid hpushes hopened (by rw [hstate]; rfl)
    have hwarning : progress.openWarning = some (.unterminatedString r) := by
      simp [openWarning, hstate, hr]
    rw [hstate] at hopened unique
    refine ⟨number, entry, r, hopened, unique, nofun, fun _ => getLast?_warnings_finish hwarning,
      hle, hiff.trans ?_⟩
    simp [ScanState.alike, ScanState.isInBlock, ScanState.isInString]

/-- A string that is closed on the line on which a comment is opened is of another kind, so the
warning names that line. -/
theorem openWarning_line_after_string :
    ∃ results progress, pushAll .sample {} (.start {}) ["\"a".toList, "b\" /* c".toList] =
        .ok (results, progress) ∧ progress.state = .inBlock 0 1 ∧
      ∃ number entry r, Profile.sample.OpenedOn progress.state .normal
          ["\"a".toList, "b\" /* c".toList] number entry ∧
        progress.finish.warnings.getLast? = some (.unterminatedBlock r) ∧
        (r = number ↔ entry.alike progress.state = false) := by
  obtain ⟨results, progress, hpush, h⟩ := openWarning_line_iff .sample {}
    ["\"a".toList, "b\" /* c".toList] Profile.sample_valid (by decide) (by decide)
  have hstate : progress.state = .inBlock 0 1 := by
    obtain ⟨scans, hpushes⟩ := pushAll_eq_ok_iff.1 hpush
    have hscan : (Profile.sample.scanLines .normal ["\"a".toList, "b\" /* c".toList]).map (·.2) =
        .ok (.inBlock 0 1) := by cbv
    have hlines : Profile.sample.scanLines .normal ["\"a".toList, "b\" /* c".toList] =
        .ok (scans, progress.state) := hpushes.scanLines
    rw [hlines] at hscan
    exact Except.ok.inj hscan
  refine ⟨results, progress, hpush, hstate, ?_⟩
  have hopen : progress.state ≠ .normal := fun hnormal => by cases hstate.symm.trans hnormal
  obtain ⟨number, entry, r, hopened, -, hblock, -, -, hiff⟩ := h hopen
  exact ⟨number, entry, r, hopened, hblock (by rw [hstate]; rfl), hiff⟩

/-- A comment that is closed on the line on which the next one is opened lets the warning name the
wrong line: the comment that is left open was opened on the second line. -/
theorem openWarning_line_after_comment :
    Profile.sample.Valid ∧
      (Profile.sample.classifyLines {} ["/* a".toList, "*/ /* b".toList]).map (·.warnings) =
        .ok [.unterminatedBlock 1] ∧
      Profile.sample.OpenedOn (.inBlock 0 1) .normal ["/* a".toList, "*/ /* b".toList] 2
        (.inBlock 0 1) := by
  have hreach : Profile.sample.Reaches (.inBlock 0 1) "*/ /* b".toList .normal "/* b".toList :=
    .step (by decide) rfl (.step (by decide) rfl .refl)
  have hinside : Profile.sample.StaysInside (.inBlock 0 1) " b".toList (.inBlock 0 1) :=
    .step nofun (by decide) rfl (.step nofun (by decide) rfl (.nil nofun))
  have hopens : Profile.sample.OpensOn (.inBlock 0 1) (.inBlock 0 1) "*/ /* b".toList
      (.inBlock 0 1) :=
    ⟨_, ⟨2, .blockComment, .inBlock 0 1, false⟩, _, false, hreach, by decide, rfl, rfl, hinside,
      rfl, nofun⟩
  exact ⟨Profile.sample_valid, by cbv, .later (by cbv) (.here hopens .nil)⟩

end SourceTally.Progress
