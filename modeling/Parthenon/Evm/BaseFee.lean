import Parthenon.Evm.GasPricing
import Parthenon.Library.Rounding

namespace Parthenon.Evm.GasPricing

open Library

/-! # Base fees

The base fee against its formula.  The change of the fee is exact where the product
of the fee and the gas fits in 64 bits; elsewhere the source divides first, which drops
the rest of the fee, and the product of what is left can still wrap.
-/

/-- The gas between what was used and the target. -/
def gasBetween (used target : Nat) : Nat := used - target + (target - used)

/-- A base fee after a change. -/
def steppedFee (parent used target change : Nat) : Nat :=
  if used = target then parent
  else if target < used then min (2 ^ 64 - 1) (parent + max 1 change)
  else max 1 (parent - change)

/-- The change in exact arithmetic. -/
def exactChange (parent used target : Nat) : Nat :=
  parent * gasBetween used target / target / 8

/-- The change that the code comes to. -/
def codeChange (parent used target : Nat) : Nat :=
  if used = 0 then parent / 8
  else if parent * gasBetween used target < 2 ^ 64 then exactChange parent used target
  else parent / 8 * gasBetween used target % 2 ^ 64 / target

/-- The formula for the next base fee. -/
def nextBaseFee (parent used limit : Nat) : Nat :=
  steppedFee parent used (limit / 2) (exactChange parent used (limit / 2))

/-! ## The code on natural numbers -/

theorem ne_zero_of_pos {value : UInt64} (positive : 0 < value.toNat) : value ≠ 0 :=
  UInt64.pos_iff_ne_zero.mp (UInt64.lt_iff_toNat_lt.mpr positive)

theorem checkedDiv_of_pos (dividend : UInt64) {divisor : UInt64} (positive : 0 < divisor.toNat) :
    checkedDiv dividend divisor = some (dividend / divisor) := by
  rw [checkedDiv, if_neg (ne_zero_of_pos positive)]

theorem baseFeeDelta_some (parent : UInt64) {delta target : UInt64} (moves : 0 < delta.toNat)
    (positive : 0 < target.toNat) :
    ∃ change, baseFeeDelta parent delta target = some change ∧
      change.toNat =
        if parent.toNat * delta.toNat < 2 ^ 64 then parent.toNat * delta.toNat / target.toNat / 8
        else parent.toNat / 8 * delta.toNat % 2 ^ 64 / target.toNat := by
  have eight : 0 < baseFeeChangeDenominator.toNat := by decide
  have guard_ : parent ≤ 0xffffffffffffffff / delta ↔ parent.toNat * delta.toNat < 2 ^ 64 := by
    rw [← UInt64.not_lt, ← gt_iff_lt, mul_fits_iff (ne_zero_of_pos moves), Nat.mul_comm]
  simp only [baseFeeDelta, checkedDiv_of_pos _ moves, checkedDiv_of_pos _ positive,
    checkedDiv_of_pos _ eight, Option.bind_eq_bind, Option.bind_some]
  by_cases fits : parent.toNat * delta.toNat < 2 ^ 64
  · refine ⟨_, if_pos (guard_.mpr fits), ?_⟩
    rw [if_pos fits, UInt64.toNat_div, UInt64.toNat_div, UInt64.toNat_mul, Nat.mod_eq_of_lt fits]
    rfl
  · refine ⟨_, if_neg (mt guard_.mp fits), ?_⟩
    rw [if_neg fits, UInt64.toNat_div, UInt64.toNat_mul, UInt64.toNat_div]
    rfl

section Update

variable (parent used : UInt64) {limit : UInt64} (split : 2 ≤ limit.toNat)

theorem raised_toNat (change : UInt64) :
    (if parent ≤ 0xffffffffffffffff - max change 1 then parent + max change 1
      else 0xffffffffffffffff : UInt64).toNat =
      min (2 ^ 64 - 1) (parent.toNat + max 1 change.toNat) := by
  have step : (max change 1).toNat = max 1 change.toNat := by
    rw [UInt64.toNat_max, Nat.max_comm]
    rfl
  have fits : parent ≤ 0xffffffffffffffff - max change 1 ↔
      parent.toNat + max 1 change.toNat < 2 ^ 64 := by
    rw [← UInt64.not_lt, ← gt_iff_lt, add_fits_iff, step]
  by_cases room : parent.toNat + max 1 change.toNat < 2 ^ 64
  · rw [if_pos (fits.mpr room), toNat_add_of_fits (step ▸ room), step]
    omega
  · rw [if_neg (mt fits.mp room)]
    change 2 ^ 64 - 1 = _
    omega

theorem lowered_toNat (change : UInt64) :
    (if parent > change then max (parent - change) minBaseFee else minBaseFee : UInt64).toNat =
      max 1 (parent.toNat - change.toNat) := by
  have least : minBaseFee.toNat = 1 := rfl
  by_cases more : parent > change
  · rw [if_pos more, UInt64.toNat_max, least, toNat_sub_of_le (UInt64.le_of_lt more), Nat.max_comm]
  · have most : parent.toNat ≤ change.toNat :=
      UInt64.le_iff_toNat_le.mp (UInt64.not_lt.mp more)
    rw [if_neg more, least]
    omega

include split in
/-- The update never divides by zero. -/
theorem calculateNextBaseFee_some :
    ∃ fee, calculateNextBaseFee parent used limit = some fee ∧
      fee.toNat = steppedFee parent.toNat used.toNat (limit.toNat / 2)
        (codeChange parent.toNat used.toNat (limit.toNat / 2)) := by
  have two : 0 < elasticityMultiplier.toNat := by decide
  have eight : 0 < baseFeeChangeDenominator.toNat := by decide
  have target : (limit / elasticityMultiplier).toNat = limit.toNat / 2 := UInt64.toNat_div _ _
  have positive : 0 < (limit / elasticityMultiplier).toNat := by omega
  rw [calculateNextBaseFee, ← target]
  simp only [checkedDiv_of_pos _ two, checkedDiv_of_pos _ eight, Option.bind_eq_bind,
    Option.bind_some]
  generalize limit / elasticityMultiplier = target at positive
  by_cases empty : used = 0
  · have none_ : used.toNat = 0 := congrArg UInt64.toNat empty
    refine ⟨_, if_pos empty, ?_⟩
    rw [lowered_toNat, steppedFee, codeChange, none_, if_neg positive.ne, if_neg (Nat.not_lt_zero _),
      if_pos rfl]
    rfl
  · have some_ : used.toNat ≠ 0 := fun zero => empty (UInt64.toNat_inj.mp zero)
    rw [if_neg empty, steppedFee, codeChange, if_neg some_]
    by_cases same : used = target
    · refine ⟨parent, if_pos same, ?_⟩
      rw [if_pos (congrArg UInt64.toNat same)]
    · have differs : used.toNat ≠ target.toNat := fun equal => same (UInt64.toNat_inj.mp equal)
      rw [if_neg same, if_neg differs]
      by_cases above : used > target
      · have more : target.toNat < used.toNat := UInt64.lt_iff_toNat_lt.mp above
        have delta : (used - target).toNat = gasBetween used.toNat target.toNat := by
          rw [toNat_sub_of_le (UInt64.le_of_lt above), gasBetween]
          omega
        have moves : 0 < (used - target).toNat := by
          rw [delta, gasBetween]
          omega
        obtain ⟨change, isChange, value⟩ := baseFeeDelta_some parent moves positive
        rw [if_pos above, isChange, if_pos more]
        refine ⟨_, rfl, ?_⟩
        rw [raised_toNat, value, delta, exactChange]
      · have less : ¬ target.toNat < used.toNat := mt UInt64.lt_iff_toNat_lt.mpr above
        have delta : (target - used).toNat = gasBetween used.toNat target.toNat := by
          rw [toNat_sub_of_le (UInt64.not_lt.mp above), gasBetween]
          omega
        have moves : 0 < (target - used).toNat := by
          rw [delta, gasBetween]
          omega
        obtain ⟨change, isChange, value⟩ := baseFeeDelta_some parent moves positive
        rw [if_neg above, isChange, if_neg less]
        refine ⟨_, rfl, ?_⟩
        rw [lowered_toNat, value, delta, exactChange]

end Update

/-! ## The change of the fee -/

section Change

variable (parent used : Nat) {target : Nat} (positive : 0 < target)

include positive in
theorem codeChange_empty : codeChange parent 0 target = exactChange parent 0 target := by
  rw [codeChange, if_pos rfl, exactChange, gasBetween, Nat.zero_sub, Nat.zero_add, Nat.sub_zero,
    Nat.mul_div_cancel _ positive]

include positive in
/-- The code never changes a fee by more than the formula. -/
theorem codeChange_le : codeChange parent used target ≤ exactChange parent used target := by
  by_cases empty : used = 0
  · rw [empty, codeChange_empty parent positive]
  · rw [codeChange, if_neg empty]
    by_cases fits : parent * gasBetween used target < 2 ^ 64
    · rw [if_pos fits]
    · rw [if_neg fits]
      exact (Nat.div_le_div_right (Nat.mod_le _ _)).trans (quotient_first_le positive (by decide))

/-- Dividing by eight before the product is exact and its product fits. -/
def DividesFirst (parent delta target : Nat) : Prop :=
  parent / 8 * delta < 2 ^ 64 ∧
    8 * (parent / 8 * delta % target) + parent % 8 * delta < 8 * target

include positive in
theorem codeChange_eq_iff (small : 2 * target ≤ 2 ^ 64) :
    codeChange parent used target = exactChange parent used target ↔
      used = 0 ∨ parent * gasBetween used target < 2 ^ 64 ∨
        DividesFirst parent (gasBetween used target) target := by
  by_cases empty : used = 0
  · rw [empty]
    exact iff_of_true (codeChange_empty parent positive) (.inl rfl)
  · rw [codeChange, if_neg empty, or_iff_right empty]
    by_cases fits : parent * gasBetween used target < 2 ^ 64
    · rw [if_pos fits]
      exact iff_of_true rfl (.inl fits)
    · rw [if_neg fits, or_iff_right fits, DividesFirst]
      by_cases wraps : parent / 8 * gasBetween used target < 2 ^ 64
      · rw [Nat.mod_eq_of_lt wraps, and_iff_right wraps, exactChange,
          quotient_first_iff positive (by decide)]
      · have short := wrapped_quotient (Nat.not_lt.mp wraps) small positive
        have most : parent / 8 * gasBetween used target / target ≤ exactChange parent used target :=
          quotient_first_le positive (by decide)
        exact iff_of_false (by omega) fun both => wraps both.1

include positive in
theorem exactChange_le_one_iff :
    exactChange parent used target ≤ 1 ↔ parent * gasBetween used target < 16 * target := by
  rw [exactChange, Nat.div_div_eq_div_mul, ← Nat.lt_succ_iff,
    Nat.div_lt_iff_lt_mul (Nat.mul_pos positive (by decide))]
  omega

/-- Up to twice the target the change is an eighth of the fee at most. -/
theorem exactChange_le {used : Nat} (within : used ≤ 2 * target) :
    exactChange parent used target ≤ parent / 8 := by
  have delta : gasBetween used target ≤ target := by
    rw [gasBetween]
    omega
  rw [exactChange]
  apply Nat.div_le_div_right
  exact Nat.div_le_of_le_mul ((Nat.mul_le_mul_left parent delta).trans_eq (Nat.mul_comm _ _))

/-- The inputs on which the fee is that of the formula: those on which the change is, and those
above the target on which the least change or the largest fee hides the difference. -/
def UpdatesExactly (parent used target : Nat) : Prop :=
  used = 0 ∨ used = target ∨ parent * gasBetween used target < 2 ^ 64 ∨
    DividesFirst parent (gasBetween used target) target ∨
    (target < used ∧
      (parent * gasBetween used target < 16 * target ∨ 2 ^ 64 ≤ parent + 2 ∨
        (2 ^ 64 - 1 - parent) * target ≤ parent / 8 * gasBetween used target % 2 ^ 64))

include positive in
theorem steppedFee_eq_iff (small : 2 * target ≤ 2 ^ 64) :
    steppedFee parent used target (codeChange parent used target) =
        steppedFee parent used target (exactChange parent used target) ↔
      UpdatesExactly parent used target := by
  have same := codeChange_eq_iff parent used positive small
  by_cases equal : codeChange parent used target = exactChange parent used target
  · refine iff_of_true (by rw [equal]) ?_
    rcases same.mp equal with empty | fits | first
    · exact .inl empty
    · exact .inr (.inr (.inl fits))
    · exact .inr (.inr (.inr (.inl first)))
  · have less := codeChange_le parent used positive
    obtain ⟨more, wide⟩ := not_or.mp (mt same.mpr equal)
    obtain ⟨wide, rest⟩ := not_or.mp wide
    rw [UpdatesExactly, or_iff_right more, or_iff_right wide, or_iff_right rest]
    by_cases reached : used = target
    · exact iff_of_true (by rw [steppedFee, steppedFee, if_pos reached, if_pos reached])
        (.inl reached)
    · rw [or_iff_right reached, steppedFee, steppedFee, if_neg reached, if_neg reached]
      by_cases above : target < used
      · have code : codeChange parent used target =
            parent / 8 * gasBetween used target % 2 ^ 64 / target := by
          rw [codeChange, if_neg more, if_neg wide]
        have saturates : 2 ^ 64 - 1 - parent ≤ codeChange parent used target ↔
            (2 ^ 64 - 1 - parent) * target ≤ parent / 8 * gasBetween used target % 2 ^ 64 := by
          rw [code, Nat.le_div_iff_mul_le positive]
        rw [if_pos above, if_pos above, and_iff_right above, ← saturates,
          ← exactChange_le_one_iff parent used positive]
        omega
      · have share := exactChange_le parent (show used ≤ 2 * target by omega)
        rw [if_neg above, if_neg above]
        exact iff_of_false (by omega) fun both => above both.1

end Change

/-- The formula rises with the gas, but for a fee of zero that stays zero at the target. -/
theorem nextBaseFee_le_iff {parent used more limit : Nat} (small : parent < 2 ^ 64)
    (least : used ≤ more) :
    nextBaseFee parent used limit ≤ nextBaseFee parent more limit ↔
      0 < parent ∨ used = limit / 2 ∨ more ≠ limit / 2 := by
  rw [nextBaseFee, nextBaseFee, steppedFee, steppedFee]
  generalize limit / 2 = target
  rcases Nat.lt_trichotomy used target with below | reached | above
  · have lower := exactChange_le parent (show used ≤ 2 * target by omega)
    rw [if_neg below.ne, if_neg below.not_gt]
    rcases Nat.lt_trichotomy more target with still | now | past
    · have nearer : exactChange parent more target ≤ exactChange parent used target :=
        Nat.div_le_div_right (Nat.div_le_div_right (Nat.mul_le_mul_left parent (by
          rw [gasBetween, gasBetween]
          omega)))
      rw [if_neg still.ne, if_neg still.not_gt]
      exact iff_of_true (by omega) (.inr (.inr still.ne))
    · rw [if_pos now]
      omega
    · rw [if_neg past.ne', if_pos past]
      exact iff_of_true (by omega) (.inr (.inr past.ne'))
  · rw [if_pos reached]
    refine iff_of_true ?_ (.inr (.inl reached))
    split
    · exact Nat.le_refl parent
    · rw [if_pos (by omega)]
      omega
  · have further : exactChange parent used target ≤ exactChange parent more target :=
      Nat.div_le_div_right (Nat.div_le_div_right (Nat.mul_le_mul_left parent (by
        rw [gasBetween, gasBetween]
        omega)))
    have past : target < more := above.trans_le least
    rw [if_neg above.ne', if_pos above, if_neg past.ne', if_pos past]
    exact iff_of_true (by omega) (.inr (.inr past.ne'))

/-- The update never divides by zero and is the formula exactly under the condition, on which it
rises with the gas but for a fee of zero that meets the target. -/
theorem next_base_fee_exact_iff {parent used limit : UInt64} (split : 2 ≤ limit.toNat) :
    (∃ fee, calculateNextBaseFee parent used limit = some fee ∧
      (fee.toNat = nextBaseFee parent.toNat used.toNat limit.toNat ↔
        UpdatesExactly parent.toNat used.toNat (limit.toNat / 2))) ∧
      ∀ more fee later, used ≤ more → UpdatesExactly parent.toNat used.toNat (limit.toNat / 2) →
        UpdatesExactly parent.toNat more.toNat (limit.toNat / 2) →
        calculateNextBaseFee parent used limit = some fee →
        calculateNextBaseFee parent more limit = some later →
        (fee ≤ later ↔
          0 < parent.toNat ∨ used.toNat = limit.toNat / 2 ∨ more.toNat ≠ limit.toNat / 2) := by
  have positive : 0 < limit.toNat / 2 := by omega
  have size := limit.toNat_lt
  have small : 2 * (limit.toNat / 2) ≤ 2 ^ 64 := by omega
  have exactly (gas fee : UInt64) (known : calculateNextBaseFee parent gas limit = some fee) :
      fee.toNat = nextBaseFee parent.toNat gas.toNat limit.toNat ↔
        UpdatesExactly parent.toNat gas.toNat (limit.toNat / 2) := by
    obtain ⟨found, isFee, value⟩ := calculateNextBaseFee_some parent gas split
    rw [known, Option.some.injEq] at isFee
    rw [isFee, value]
    exact steppedFee_eq_iff _ _ positive small
  constructor
  · obtain ⟨fee, known, _⟩ := calculateNextBaseFee_some parent used split
    exact ⟨fee, known, exactly used fee known⟩
  · intro more fee later least here there first second
    rw [UInt64.le_iff_toNat_le, (exactly used fee first).mpr here,
      (exactly more later second).mpr there]
    exact nextBaseFee_le_iff parent.toNat_lt (UInt64.le_iff_toNat_le.mp least)

theorem next_base_fee_genesis :
    2 ≤ (30000000 : UInt64).toNat ∧
      ∃ fee, calculateNextBaseFee 10 30000000 30000000 = some fee ∧
        (fee.toNat = nextBaseFee 10 30000000 30000000 ↔ UpdatesExactly 10 30000000 15000000) :=
  ⟨by decide, (next_base_fee_exact_iff (by decide)).1⟩

/-- Of a base fee of 2 ^ 63 a full block of thirty million adds one and not an eighth. -/
theorem full_block_adds_one : ¬ ∀ parent used limit : UInt64, 2 ≤ limit → used ≤ limit →
    ∃ fee, calculateNextBaseFee parent used limit = some fee ∧
      fee.toNat = nextBaseFee parent.toNat used.toNat limit.toNat := by
  intro claim
  obtain ⟨fee, known, value⟩ := claim 0x8000000000000000 30000000 30000000 (by decide) (by decide)
  have found : calculateNextBaseFee 0x8000000000000000 30000000 30000000 =
      some 0x8000000000000001 := by decide
  rw [found, Option.some.injEq] at known
  rw [← known] at value
  revert value
  decide

/-! ## Estimates -/

theorem estimateGasPrice_toNat {base tip : UInt64} (room : 2 * base.toNat + tip.toNat < 2 ^ 64) :
    (estimateGasPrice base tip).toNat =
      base.toNat + base.toNat / 8 + (base.toNat + base.toNat / 8) / 10 + tip.toNat := by
  have eighth : (base / baseFeeChangeDenominator).toNat = base.toNat / 8 := UInt64.toNat_div _ _
  have raised : (base + base / baseFeeChangeDenominator).toNat = base.toNat + base.toNat / 8 := by
    rw [toNat_add_of_fits (by omega), eighth]
  have buffer : ((base + base / baseFeeChangeDenominator) / 10).toNat =
      (base.toNat + base.toNat / 8) / 10 := by
    rw [UInt64.toNat_div, raised]
    rfl
  have sum : (base + base / baseFeeChangeDenominator +
      (base + base / baseFeeChangeDenominator) / 10).toNat =
        base.toNat + base.toNat / 8 + (base.toNat + base.toNat / 8) / 10 := by
    rw [toNat_add_of_fits (by omega), raised, buffer]
  rw [estimateGasPrice, toNat_add_of_fits (by omega), sum]

/-- An estimate covers the next base fee and the tip from a fee of eight on; below, only where
the fee does not rise and is not the least one. -/
theorem estimate_covers_iff {base tip used limit : UInt64}
    (room : 2 * base.toNat + tip.toNat < 2 ^ 64) (split : 2 ≤ limit.toNat)
    (even : limit.toNat % 2 = 0) (within : used ≤ limit) :
    ∃ next, calculateNextBaseFee base used limit = some next ∧
      (next.toNat + tip.toNat ≤ (estimateGasPrice base tip).toNat ∧
          validateTransactionFees next (estimateGasPrice base tip) tip = true ↔
        8 ≤ base.toNat ∨ used.toNat = limit.toNat / 2 ∨
          0 < base.toNat ∧ used.toNat < limit.toNat / 2) := by
  obtain ⟨next, known, value⟩ := calculateNextBaseFee_some base used split
  have most := UInt64.le_iff_toNat_le.mp within
  have positive : 0 < limit.toNat / 2 := by omega
  have change : codeChange base.toNat used.toNat (limit.toNat / 2) ≤ base.toNat / 8 :=
    (codeChange_le _ _ positive).trans (exactChange_le _ (by omega))
  refine ⟨next, known, ?_⟩
  rw [validateTransactionFees_iff, estimateGasPrice_toNat room, value, steppedFee]
  generalize codeChange base.toNat used.toNat (limit.toNat / 2) = change_ at change
  by_cases reached : used.toNat = limit.toNat / 2
  · rw [if_pos reached]
    omega
  · rw [if_neg reached]
    by_cases above : limit.toNat / 2 < used.toNat
    · rw [if_pos above]
      omega
    · rw [if_neg above]
      omega

theorem estimate_covers_genesis :
    (2 * (10 : UInt64).toNat + (10 : UInt64).toNat < 2 ^ 64 ∧ 2 ≤ (30000000 : UInt64).toNat ∧
        (30000000 : UInt64).toNat % 2 = 0 ∧ (30000000 : UInt64) ≤ 30000000) ∧
      ∃ next, calculateNextBaseFee 10 30000000 30000000 = some next ∧
        (next.toNat + (10 : UInt64).toNat ≤ (estimateGasPrice 10 10).toNat ∧
            validateTransactionFees next (estimateGasPrice 10 10) 10 = true ↔
          8 ≤ (10 : UInt64).toNat ∨ (30000000 : UInt64).toNat = (30000000 : UInt64).toNat / 2 ∨
            0 < (10 : UInt64).toNat ∧ (30000000 : UInt64).toNat < (30000000 : UInt64).toNat / 2) :=
  ⟨by decide, estimate_covers_iff (by decide) (by decide) (by decide) (by decide)⟩

/-- At the least base fee an estimate is short by one after a full block. -/
theorem estimate_short : ¬ ∀ base tip used limit : UInt64,
    2 * base.toNat + tip.toNat < 2 ^ 64 → 2 ≤ limit → limit.toNat % 2 = 0 → used ≤ limit →
      ∃ next, calculateNextBaseFee base used limit = some next ∧
        next.toNat + tip.toNat ≤ (estimateGasPrice base tip).toNat := by
  intro claim
  obtain ⟨next, known, covers⟩ :=
    claim 1 oblGwei 30000000 30000000 (by decide) (by decide) (by decide) (by decide)
  have found : calculateNextBaseFee 1 30000000 30000000 = some 2 := by decide
  rw [found, Option.some.injEq] at known
  rw [← known] at covers
  revert covers
  decide

end Parthenon.Evm.GasPricing
