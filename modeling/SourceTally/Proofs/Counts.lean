import SourceTally.Counts.Basic
import SourceTally.Proofs.Basic

/-!
# Sums of counts

Counts are added field by field, so their sums do not depend on the order, a part of a sum that fits
fits too, and the categories of a sum add up if those of its parts do (`Counts.AddsUp`). To be
consistent is to add up and to fit (`Counts.consistent?_eq_ok_true_iff`).
-/

namespace SourceTally

/-- A number that fits is taken as it is. -/
theorem fitCount_eq_ok_iff {n m : Nat} : fitCount n = .ok m ↔ n ≤ maxCount ∧ m = n := by
  unfold fitCount
  split
  next h => simp [h, eq_comm]
  next h => simp [h]

namespace Counts

instance : Zero Counts := ⟨{}⟩

theorem add_assoc (a b c : Counts) : a + b + c = a + (b + c) := by
  refine (Counts.mk.injEq ..).mpr ⟨?_, ?_, ?_, ?_, ?_⟩
  all_goals exact Nat.add_assoc ..

theorem add_comm (a b : Counts) : a + b = b + a := by
  refine (Counts.mk.injEq ..).mpr ⟨?_, ?_, ?_, ?_, ?_⟩
  all_goals exact Nat.add_comm ..

theorem zero_add (a : Counts) : 0 + a = a := by
  refine (Counts.mk.injEq ..).mpr ⟨?_, ?_, ?_, ?_, ?_⟩
  all_goals exact Nat.zero_add ..

instance : AddCommMonoid Counts where
  add_assoc := add_assoc
  zero_add := zero_add
  add_zero a := (add_comm a 0).trans (zero_add a)
  add_comm := add_comm
  nsmul := nsmulRec

theorem add?_eq_ok_iff {a b c : Counts} : a.add? b = .ok c ↔ (a + b).fits = true ∧ c = a + b := by
  unfold add?
  split
  next h => simp [h, eq_comm]
  next h => simp [h]

/-- A part of counts that fit fits. -/
theorem fits_of_fits_add {a b : Counts} (h : (a + b).fits = true) : a.fits = true := by
  simp only [fits, Bool.and_eq_true, decide_eq_true_eq] at h ⊢
  obtain ⟨⟨⟨⟨hblank, hcode⟩, hcomment⟩, hheader⟩, htotal⟩ := h
  exact ⟨⟨⟨⟨(Nat.le_add_right ..).trans hblank, (Nat.le_add_right ..).trans hcode⟩,
    (Nat.le_add_right ..).trans hcomment⟩, (Nat.le_add_right ..).trans hheader⟩,
    (Nat.le_add_right ..).trans htotal⟩

/-- So does one of several counts whose sum fits. -/
theorem fits_of_mem {c : Counts} {all : List Counts} (h : all.sum.fits = true) (hc : c ∈ all) :
    c.fits = true := by
  rw [(List.perm_cons_erase hc).sum_eq, List.sum_cons] at h
  exact fits_of_fits_add h

/-! ## Consistency -/

/-- The categories add up to the total. -/
def AddsUp (c : Counts) : Prop :=
  c.blank + c.code + c.comment + c.header = c.total

/-- Counts are consistent if they add up to a total that fits, since then each part of the sum of
the categories fits too. -/
theorem consistent?_eq_ok_true_iff {c : Counts} :
    c.consistent? = .ok true ↔ c.total ≤ maxCount ∧ c.AddsUp := by
  simp only [consistent?, bind_eq_ok_iff, fitCount_eq_ok_iff, AddsUp]
  constructor
  · rintro ⟨sum, ⟨hfits, rfl⟩, h⟩
    have heq := beq_iff_eq.1 (Except.ok.inj h)
    exact ⟨heq ▸ hfits, heq⟩
  · rintro ⟨hfits, heq⟩
    exact ⟨_, ⟨heq ▸ hfits, rfl⟩, congrArg Except.ok (beq_iff_eq.2 heq)⟩

theorem AddsUp.add {a b : Counts} (ha : a.AddsUp) (hb : b.AddsUp) : (a + b).AddsUp := by
  unfold AddsUp at *
  show a.blank + b.blank + (a.code + b.code) + (a.comment + b.comment) + (a.header + b.header) =
    a.total + b.total
  omega

/-- The sum of counts that add up does. -/
theorem addsUp_sum {all : List Counts} (h : ∀ c ∈ all, c.AddsUp) : all.sum.AddsUp := by
  induction all with
  | nil => rfl
  | cons c all ih =>
    obtain ⟨hc, hall⟩ := List.forall_mem_cons.1 h
    rw [List.sum_cons]
    exact hc.add (ih hall)

end Counts

end SourceTally
