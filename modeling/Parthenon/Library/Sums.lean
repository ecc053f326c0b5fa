import Mathlib.Algebra.BigOperators.Group.Finset.Basic
import Mathlib.Algebra.BigOperators.Group.List.Basic
import Mathlib.Algebra.Order.BigOperators.Group.Finset
import Mathlib.Algebra.Order.BigOperators.Group.List
import Mathlib.Algebra.Order.Ring.Nat
import Mathlib.Order.Basic
import Mathlib.Tactic.Ring

namespace Parthenon.Library

/-! # Sums

Sums that a machine adds up on 64 bits, and sums of lists that change in one
place.
-/

variable {α : Type u}

theorem toNat_foldl_wrapping (step : UInt64 → α → UInt64) (weight : α → Nat)
    (adds : ∀ total value, (step total value).toNat = (total.toNat + weight value) % 2 ^ 64)
    (values : List α) (start : UInt64) :
    (values.foldl step start).toNat = (start.toNat + (values.map weight).sum) % 2 ^ 64 := by
  induction values generalizing start with
  | nil =>
      have small := start.toNat_lt
      simp only [List.foldl_nil, List.map_nil, List.sum_nil, Nat.add_zero]
      omega
  | cons value rest ih =>
      rw [List.foldl_cons, ih, adds, List.map_cons, List.sum_cons, Nat.mod_add_mod, Nat.add_assoc]

theorem toNat_add_of_fits {left right : UInt64} (fits : left.toNat + right.toNat < 2 ^ 64) :
    (left + right).toNat = left.toNat + right.toNat := by
  rw [UInt64.toNat_add, Nat.mod_eq_of_lt fits]

theorem toNat_sub_of_le {left right : UInt64} (le : right ≤ left) :
    (left - right).toNat = left.toNat - right.toNat :=
  UInt64.toNat_sub_of_le left right le

theorem add_fits_iff {left right : UInt64} :
    ¬ left > 0xFFFFFFFFFFFFFFFF - right ↔ left.toNat + right.toNat < 2 ^ 64 := by
  have small := right.toNat_lt
  have le : right ≤ 0xFFFFFFFFFFFFFFFF := by
    rw [UInt64.le_iff_toNat_le]
    exact Nat.le_pred_of_lt small
  have top : (0xFFFFFFFFFFFFFFFF : UInt64).toNat = 2 ^ 64 - 1 := rfl
  rw [gt_iff_lt, UInt64.lt_iff_toNat_lt, toNat_sub_of_le le, top]
  omega

theorem mul_fits_iff {left right : UInt64} (nonzero : left ≠ 0) :
    ¬ right > 0xFFFFFFFFFFFFFFFF / left ↔ left.toNat * right.toNat < 2 ^ 64 := by
  have positive : 0 < left.toNat := by
    apply Nat.pos_of_ne_zero
    intro zero
    exact nonzero (UInt64.toNat_inj.mp zero)
  have top : (0xFFFFFFFFFFFFFFFF : UInt64).toNat = 2 ^ 64 - 1 := rfl
  rw [gt_iff_lt, UInt64.lt_iff_toNat_lt, UInt64.toNat_div, top, Nat.div_lt_iff_lt_mul positive,
    Nat.mul_comm]
  omega

/-- The same guard where a zero factor passes without a division. -/
theorem mul_exceeds_iff {left right : UInt64} :
    left > 0 ∧ right > 0xFFFFFFFFFFFFFFFF / left ↔ 2 ^ 64 ≤ left.toNat * right.toNat := by
  by_cases zero : left = 0
  · subst zero
    simp
  · rw [and_iff_right (UInt64.pos_iff_ne_zero.mpr zero), ← not_iff_not, mul_fits_iff zero,
      Nat.not_le]

/-- A product that is capped where it does not fit. -/
theorem cappedMul_toNat {left right : UInt64} {exceeds : Prop} [Decidable exceeds]
    (guard : exceeds ↔ 2 ^ 64 ≤ left.toNat * right.toNat) :
    (if exceeds then 0xFFFFFFFFFFFFFFFF else left * right).toNat =
      min (left.toNat * right.toNat) (2 ^ 64 - 1) := by
  by_cases big : exceeds
  · have above := guard.mp big
    have top : (0xFFFFFFFFFFFFFFFF : UInt64).toNat = 2 ^ 64 - 1 := rfl
    rw [if_pos big, top]
    omega
  · have small := Nat.not_le.mp (mt guard.mpr big)
    rw [if_neg big, UInt64.toNat_mul, Nat.mod_eq_of_lt small]
    omega

theorem sum_map_set (weight : α → Nat) {values : List α} {index : Nat} {old : α}
    (found : values[index]? = some old) (new : α) :
    ((values.set index new).map weight).sum + weight old = (values.map weight).sum + weight new := by
  induction values generalizing index with
  | nil => cases found
  | cons value rest ih =>
      cases index with
      | zero =>
          cases found
          simp only [List.set_cons_zero, List.map_cons, List.sum_cons]
          omega
      | succ index =>
          have tail := ih found
          simp only [List.set_cons_succ, List.map_cons, List.sum_cons]
          omega

/-! ## Comparisons after an overflow

Numbers that were reduced to a machine word, or capped at its last value, do not always
compare as they did before.
-/

section Wrapped

variable {size left right : Nat}

/-- As often as one number turned over, or more often and still on its side. -/
def KeepsOrder (size left right : Nat) : Prop :=
  left / size = right / size ∨
    (left / size < right / size ∧ left % size < right % size) ∨
    (right / size < left / size ∧ right % size ≤ left % size)

instance (size left right : Nat) : Decidable (KeepsOrder size left right) :=
  inferInstanceAs (Decidable (_ ∨ _ ∧ _ ∨ _ ∧ _))

theorem mod_lt_mod_iff : (left % size < right % size ↔ left < right) ↔ KeepsOrder size left right := by
  unfold KeepsOrder
  rcases Nat.lt_trichotomy (left / size) (right / size) with less | same | more
  · have exact_ : left < right := Nat.lt_of_div_lt_div less
    omega
  · have leftParts := Nat.div_add_mod left size
    have rightParts := Nat.div_add_mod right size
    rw [same] at leftParts
    generalize size * (right / size) = turns at leftParts rightParts
    omega
  · have exact_ : right < left := Nat.lt_of_div_lt_div more
    omega

theorem mod_le_mod_iff : (right % size ≤ left % size ↔ right ≤ left) ↔ KeepsOrder size left right := by
  rw [← Nat.not_lt, ← Nat.not_lt, not_iff_not]
  exact mod_lt_mod_iff

end Wrapped

section Capped

variable {cap left right : Nat}

/-- Capped numbers compare as they did unless both reach the cap. -/
theorem min_lt_min_iff : (min left cap < min right cap ↔ left < right) ↔ left < cap ∨ right ≤ left := by
  omega

/-- A product that stands at the last word when it does not fit. -/
theorem capped_toNat {value factor : UInt64} (nonzero : factor ≠ 0) :
    (if value ≤ 0xffffffffffffffff / factor then value * factor else 0xffffffffffffffff).toNat =
      min (value.toNat * factor.toNat) (2 ^ 64 - 1) := by
  have guard_ : ¬ value ≤ 0xffffffffffffffff / factor ↔
      2 ^ 64 ≤ value.toNat * factor.toNat := by
    rw [← not_iff_not, not_not, Nat.not_le, Nat.mul_comm, ← mul_fits_iff nonzero, gt_iff_lt,
      UInt64.not_lt]
  rw [← cappedMul_toNat guard_, ite_not]

end Capped

/-! ## Sums over epochs

A weight that changes only from one epoch of equal width to the next, summed over
the positions below a bound.
-/

section Epochs

variable (weight : Nat → Nat) (width : Nat)

/-- The weights of the first positions. -/
def epochSum (positions : Nat) : Nat :=
  ∑ position ∈ Finset.range positions, weight (position / width)

theorem epochSum_succ (positions : Nat) :
    epochSum weight width (positions + 1) =
      epochSum weight width positions + weight (positions / width) :=
  Finset.sum_range_succ _ positions

theorem epochSum_mono {fewer more : Nat} (order : fewer ≤ more) :
    epochSum weight width fewer ≤ epochSum weight width more := by
  apply Finset.sum_le_sum_of_subset
  intro position member
  exact Finset.mem_range.mpr (Nat.lt_of_lt_of_le (Finset.mem_range.mp member) order)

/-- A part of one epoch adds its weight for each position. -/
theorem epochSum_within (epoch : Nat) {part : Nat} (within : part ≤ width) :
    epochSum weight width (epoch * width + part) =
      epochSum weight width (epoch * width) + part * weight epoch := by
  induction part with
  | zero => rw [Nat.add_zero, Nat.zero_mul, Nat.add_zero]
  | succ part ih =>
      have here : (epoch * width + part) / width = epoch := by
        rw [Nat.mul_comm, Nat.mul_add_div (Nat.lt_of_le_of_lt (Nat.zero_le part) within),
          Nat.div_eq_of_lt within, Nat.add_zero]
      rw [← Nat.add_assoc, epochSum_succ, here, ih (Nat.le_of_succ_le within)]
      ring

theorem epochSum_epochs (epochs : Nat) :
    epochSum weight width (epochs * width) =
      width * ∑ epoch ∈ Finset.range epochs, weight epoch := by
  induction epochs with
  | zero => rw [Nat.zero_mul]; rfl
  | succ epochs ih =>
      rw [Nat.succ_mul, epochSum_within weight width epochs (Nat.le_refl width), ih,
        Finset.sum_range_succ]
      ring

theorem epochSum_beyond {epochs : Nat} (none_ : ∀ epoch, epochs ≤ epoch → weight epoch = 0)
    (positive : 0 < width) (more : Nat) :
    epochSum weight width (epochs * width + more) = epochSum weight width (epochs * width) := by
  induction more with
  | zero => rfl
  | succ more ih =>
      have past : epochs ≤ (epochs * width + more) / width :=
        (Nat.le_div_iff_mul_le positive).mpr (Nat.le_add_right _ _)
      rw [← Nat.add_assoc, epochSum_succ, none_ _ past, Nat.add_zero, ih]

/-- Weights that start late are the sum over fewer positions. -/
theorem sum_delayed (start positions : Nat) :
    (∑ position ∈ Finset.range positions,
      if position < start then 0 else weight ((position - start) / width)) =
      epochSum weight width (positions - start) := by
  induction positions with
  | zero => rw [Nat.zero_sub]; rfl
  | succ positions ih =>
      rw [Finset.sum_range_succ, ih]
      by_cases early : positions < start
      · have same : positions + 1 - start = positions - start := by omega
        rw [if_pos early, Nat.add_zero, same]
      · have next : positions + 1 - start = positions - start + 1 := by omega
        rw [if_neg early, next, epochSum_succ]

/-- A halving weight sums to at most twice its start. -/
theorem sum_halvings_le (initial epochs : Nat) :
    ∑ epoch ∈ Finset.range epochs, initial / 2 ^ epoch ≤ 2 * initial := by
  have strengthened (epochs : Nat) :
      (∑ epoch ∈ Finset.range (epochs + 1), initial / 2 ^ epoch) + initial / 2 ^ epochs ≤
        2 * initial := by
    induction epochs with
    | zero => simp [Nat.two_mul]
    | succ epochs ih =>
        have halved : initial / 2 ^ (epochs + 1) = initial / 2 ^ epochs / 2 := by
          rw [Nat.pow_succ, Nat.div_div_eq_div_mul]
        rw [Finset.sum_range_succ, halved]
        omega
  cases epochs with
  | zero => exact Nat.zero_le _
  | succ epochs => exact Nat.le_trans (Nat.le_add_right _ _) (strengthened epochs)

end Epochs

end Parthenon.Library
