import Parthenon.Library.Sums

namespace Parthenon.Evm.GasPricing

open Library

/-! # Gas pricing

Fees per unit of gas: a base fee that follows the gas of the block before, and a tip on
top of it.
-/

def baseFeeChangeDenominator : UInt64 := 8

def elasticityMultiplier : UInt64 := 2

def oblGwei : UInt64 := 10

def minBaseFee : UInt64 := 1

/-- A division, or none by zero. -/
def checkedDiv (dividend divisor : UInt64) : Option UInt64 :=
  if divisor = 0 then none else some (dividend / divisor)

/-- The change of the base fee that both directions write out. -/
def baseFeeDelta (parentBaseFee gasDelta targetGas : UInt64) : Option UInt64 := do
  let most ← checkedDiv 0xffffffffffffffff gasDelta
  if parentBaseFee ≤ most then
    let share ← checkedDiv (parentBaseFee * gasDelta) targetGas
    checkedDiv share baseFeeChangeDenominator
  else
    let share ← checkedDiv parentBaseFee baseFeeChangeDenominator
    checkedDiv (share * gasDelta) targetGas

/-- None stands for a division by zero. -/
def calculateNextBaseFee (parentBaseFee parentGasUsed parentGasLimit : UInt64) : Option UInt64 :=
  if parentGasUsed = 0 then do
    let decrease ← checkedDiv parentBaseFee baseFeeChangeDenominator
    some (if parentBaseFee > decrease then max (parentBaseFee - decrease) minBaseFee
      else minBaseFee)
  else do
    let targetGas ← checkedDiv parentGasLimit elasticityMultiplier
    if parentGasUsed = targetGas then some parentBaseFee
    else if parentGasUsed > targetGas then do
      let delta ← baseFeeDelta parentBaseFee (parentGasUsed - targetGas) targetGas
      let delta := max delta 1
      some (if parentBaseFee ≤ 0xffffffffffffffff - delta then parentBaseFee + delta
        else 0xffffffffffffffff)
    else do
      let delta ← baseFeeDelta parentBaseFee (targetGas - parentGasUsed) targetGas
      some (if parentBaseFee > delta then max (parentBaseFee - delta) minBaseFee else minBaseFee)

def calculateEffectiveGasPrice (baseFee maxFeePerGas maxPriorityFeePerGas : UInt64) : UInt64 :=
  let effectivePriorityFee :=
    if maxFeePerGas ≥ baseFee then min maxPriorityFeePerGas (maxFeePerGas - baseFee) else 0
  baseFee + effectivePriorityFee

def validateTransactionFees (baseFee maxFeePerGas maxPriorityFeePerGas : UInt64) : Bool :=
  if maxFeePerGas < baseFee then false
  else if maxPriorityFeePerGas > maxFeePerGas then false
  else true

/-- The fee of a transaction and the two parts it is handed back with. -/
structure TransactionFee where
  total : UInt64
  baseFeeBurned : UInt64
  priorityFeePaid : UInt64
deriving DecidableEq, Repr

def calculateTransactionFee (gasUsed baseFee maxFeePerGas maxPriorityFeePerGas : UInt64) :
    TransactionFee :=
  let effectiveGasPrice := calculateEffectiveGasPrice baseFee maxFeePerGas maxPriorityFeePerGas
  let baseFeeBurned := gasUsed * baseFee
  let priorityFeePerGas := if effectiveGasPrice ≥ baseFee then effectiveGasPrice - baseFee else 0
  let priorityFeePaid := gasUsed * priorityFeePerGas
  ⟨baseFeeBurned + priorityFeePaid, baseFeeBurned, priorityFeePaid⟩

def estimateGasPrice (currentBaseFee recommendedPriorityFee : UInt64) : UInt64 :=
  let maxBaseFeeIncrease := currentBaseFee / baseFeeChangeDenominator
  let estimatedNextBaseFee := currentBaseFee + maxBaseFeeIncrease
  let buffer := estimatedNextBaseFee / 10
  estimatedNextBaseFee + buffer + recommendedPriorityFee

/-- The estimate with the priority fee that is its default. -/
def estimateGasPriceDefault (currentBaseFee : UInt64) : UInt64 :=
  estimateGasPrice currentBaseFee oblGwei

/-! ## Charging -/

section Charging

variable {gasUsed baseFee maxFeePerGas maxPriorityFeePerGas : UInt64}

theorem validateTransactionFees_iff :
    validateTransactionFees baseFee maxFeePerGas maxPriorityFeePerGas = true ↔
      baseFee.toNat ≤ maxFeePerGas.toNat ∧ maxPriorityFeePerGas.toNat ≤ maxFeePerGas.toNat := by
  simp only [validateTransactionFees, UInt64.lt_iff_toNat_lt, gt_iff_lt]
  by_cases under : maxFeePerGas.toNat < baseFee.toNat
  · simp [under]
  · simp [under, Nat.not_lt.mp under]

/-- The lower of the maximum and the base fee with the tip. -/
def pricePerGas (baseFee maxFeePerGas maxPriorityFeePerGas : UInt64) : Nat :=
  min maxFeePerGas.toNat (baseFee.toNat + maxPriorityFeePerGas.toNat)

theorem effectiveGasPrice_toNat (covers : baseFee.toNat ≤ maxFeePerGas.toNat) :
    (calculateEffectiveGasPrice baseFee maxFeePerGas maxPriorityFeePerGas).toNat =
      pricePerGas baseFee maxFeePerGas maxPriorityFeePerGas := by
  have small := maxFeePerGas.toNat_lt
  have affordable := toNat_sub_of_le (UInt64.le_iff_toNat_le.mpr covers)
  have tip : (min maxPriorityFeePerGas (maxFeePerGas - baseFee)).toNat =
      min maxPriorityFeePerGas.toNat (maxFeePerGas.toNat - baseFee.toNat) := by
    rw [UInt64.toNat_min, affordable]
  rw [calculateEffectiveGasPrice, if_pos (UInt64.le_iff_toNat_le.mpr covers),
    toNat_add_of_fits (by omega), tip, pricePerGas]
  omega

/-- The fee is the price of the gas, capped by the maximum, and its two parts make it up. -/
structure ChargesExactly (gasUsed baseFee maxFeePerGas maxPriorityFeePerGas : UInt64)
    (fee : TransactionFee) : Prop where
  total : fee.total.toNat =
    gasUsed.toNat * pricePerGas baseFee maxFeePerGas maxPriorityFeePerGas
  burned : fee.baseFeeBurned.toNat = gasUsed.toNat * baseFee.toNat
  parts : fee.total.toNat = fee.baseFeeBurned.toNat + fee.priorityFeePaid.toNat
  capped : fee.total.toNat ≤ gasUsed.toNat * maxFeePerGas.toNat

/-- An accepted transaction is charged exactly when its price for all gas fits in 64 bits. -/
theorem charges_exactly_iff
    (accepted : validateTransactionFees baseFee maxFeePerGas maxPriorityFeePerGas = true) :
    ChargesExactly gasUsed baseFee maxFeePerGas maxPriorityFeePerGas
        (calculateTransactionFee gasUsed baseFee maxFeePerGas maxPriorityFeePerGas) ↔
      gasUsed.toNat * pricePerGas baseFee maxFeePerGas maxPriorityFeePerGas < 2 ^ 64 := by
  have covers := (validateTransactionFees_iff.mp accepted).1
  have price : (calculateEffectiveGasPrice baseFee maxFeePerGas maxPriorityFeePerGas).toNat =
      pricePerGas baseFee maxFeePerGas maxPriorityFeePerGas := effectiveGasPrice_toNat covers
  have most : pricePerGas baseFee maxFeePerGas maxPriorityFeePerGas ≤ maxFeePerGas.toNat :=
    Nat.min_le_left _ _
  have above : baseFee.toNat ≤ pricePerGas baseFee maxFeePerGas maxPriorityFeePerGas :=
    Nat.le_min.mpr ⟨covers, Nat.le_add_right _ _⟩
  simp only [calculateTransactionFee]
  generalize calculateEffectiveGasPrice baseFee maxFeePerGas maxPriorityFeePerGas = effective
    at price
  have covered : baseFee ≤ effective := UInt64.le_iff_toNat_le.mpr (price ▸ above)
  rw [if_pos covered]
  have burned : (gasUsed * baseFee).toNat = gasUsed.toNat * baseFee.toNat % 2 ^ 64 :=
    UInt64.toNat_mul _ _
  have paid : (gasUsed * (effective - baseFee)).toNat =
      gasUsed.toNat * (pricePerGas baseFee maxFeePerGas maxPriorityFeePerGas - baseFee.toNat) %
        2 ^ 64 := by
    rw [UInt64.toNat_mul, toNat_sub_of_le covered, price]
  have parts : gasUsed.toNat * baseFee.toNat +
      gasUsed.toNat * (pricePerGas baseFee maxFeePerGas maxPriorityFeePerGas - baseFee.toNat) =
        gasUsed.toNat * pricePerGas baseFee maxFeePerGas maxPriorityFeePerGas := by
    rw [← Nat.mul_add, Nat.add_sub_cancel' above]
  have total : (gasUsed * baseFee + gasUsed * (effective - baseFee)).toNat =
      gasUsed.toNat * pricePerGas baseFee maxFeePerGas maxPriorityFeePerGas % 2 ^ 64 := by
    rw [UInt64.toNat_add, burned, paid, ← Nat.add_mod, parts]
  constructor
  · intro exactly
    rw [← exactly.total]
    exact UInt64.toNat_lt _
  · intro fits
    constructor
    · simp only [total, Nat.mod_eq_of_lt fits]
    · simp only [burned]
      exact Nat.mod_eq_of_lt (by omega)
    · simp only [total, burned, paid]
      rw [Nat.mod_eq_of_lt fits, Nat.mod_eq_of_lt (by omega), Nat.mod_eq_of_lt (by omega), parts]
    · simp only [total, Nat.mod_eq_of_lt fits]
      exact Nat.mul_le_mul_left _ most

end Charging

theorem charges_exactly_transfer :
    validateTransactionFees 10 30 2 = true ∧
      (ChargesExactly 21000 10 30 2 (calculateTransactionFee 21000 10 30 2) ↔
        (21000 : UInt64).toNat * pricePerGas 10 30 2 < 2 ^ 64) :=
  ⟨by decide, charges_exactly_iff (by decide)⟩

/-- Two units of gas at a price of 2 ^ 63 are free. -/
theorem charge_wraps : ¬ ∀ gasUsed baseFee maxFeePerGas maxPriorityFeePerGas : UInt64,
    validateTransactionFees baseFee maxFeePerGas maxPriorityFeePerGas = true →
      ChargesExactly gasUsed baseFee maxFeePerGas maxPriorityFeePerGas
        (calculateTransactionFee gasUsed baseFee maxFeePerGas maxPriorityFeePerGas) := by
  intro claim
  have charged := (claim 2 0x8000000000000000 0x8000000000000000 0 (by decide)).burned
  revert charged
  decide

end Parthenon.Evm.GasPricing
