import Parthenon.Governance.VotingPower
import Parthenon.Library.Sums
import Parthenon.Library.Rounding
import Parthenon.Primitives.Asset

namespace Parthenon.Governance

open Library Primitives

/-! # Supply policy

Shares of a supply in basis points.  The products on both sides of a comparison are split,
capped, or left to wrap.
-/

namespace SupplyPolicy

def tierLowBps : UInt32 := 500

def tierMidBps : UInt32 := 1000

def tierHighBps : UInt32 := 5000

def computeThreshold (supply : UInt64) (bps : UInt32) : UInt64 :=
  let quotient := supply / 10000
  let remainder := supply % 10000
  quotient * bps.toUInt64 + remainder * bps.toUInt64 / 10000

def isBondingHealthy (bondedSupply totalSupply : UInt64) (minBps : UInt32) : Bool :=
  if totalSupply = 0 then false
  else bondedSupply * 10000 ≥ totalSupply * minBps.toUInt64

def exceedsTreasuryCap (treasuryBalance deposit totalSupply : UInt64) : Bool :=
  let cap := computeThreshold totalSupply tierHighBps
  if deposit > 0xffffffffffffffff - treasuryBalance then true
  else treasuryBalance + deposit > cap

/-- The bonding check with the middle tier. -/
def isWhale (rawPower totalSupply : UInt64) : Bool :=
  if totalSupply = 0 then false
  else rawPower * 10000 ≥ totalSupply * tierMidBps.toUInt64

def computeEligibleVoterQuorum (eligibleVoters : UInt64) : UInt64 :=
  computeThreshold eligibleVoters tierLowBps

end SupplyPolicy

namespace AntiWhaleGuard

/-- A product that does not fit stands at the last number. -/
def isWhale (guard : AntiWhaleGuard) (rawPower totalSupply : UInt64) : Bool :=
  if totalSupply = 0 ∨ guard.config.whaleThresholdBps = 0 then false
  else
    let lhs :=
      if rawPower ≤ 0xffffffffffffffff / 10000 then rawPower * 10000 else 0xffffffffffffffff
    let rhs :=
      if guard.config.whaleThresholdBps = 0 ∨
          totalSupply ≤ 0xffffffffffffffff / guard.config.whaleThresholdBps then
        totalSupply * guard.config.whaleThresholdBps
      else 0xffffffffffffffff
    lhs > rhs

end AntiWhaleGuard

namespace SupplyPolicy

theorem computeThreshold_exact (supply : UInt64) {bps : UInt32} (small : bps ≤ 10000) :
    (computeThreshold supply bps).toNat = supply.toNat * bps.toNat / 10000 := by
  have word := supply.toNat_lt
  have le : bps.toNat ≤ 10000 := UInt32.le_iff_toNat_le.mp small
  have whole := Nat.div_add_mod supply.toNat 10000
  have quotient : supply.toNat / 10000 * bps.toNat ≤ supply.toNat / 10000 * 10000 :=
    Nat.mul_le_mul_left _ le
  have remainder : supply.toNat % 10000 * bps.toNat ≤ supply.toNat % 10000 * 10000 :=
    Nat.mul_le_mul_left _ le
  have rest : supply.toNat % 10000 < 10000 := Nat.mod_lt _ (by decide)
  have share := Nat.div_le_div_right (c := 10000) remainder
  rw [Nat.mul_div_cancel _ (by decide)] at share
  rw [split_quotient _ _ (by decide : 0 < 10000)]
  simp only [computeThreshold, UInt64.toNat_add, UInt64.toNat_mul, UInt64.toNat_div,
    UInt64.toNat_mod, UInt32.toNat_toUInt64, UInt64.reduceToNat]
  rw [Nat.mod_eq_of_lt (a := supply.toNat / 10000 * bps.toNat) (by omega),
    Nat.mod_eq_of_lt (a := supply.toNat % 10000 * bps.toNat) (by omega)]
  exact Nat.mod_eq_of_lt (by omega)

/-- One voter in twenty. -/
theorem computeEligibleVoterQuorum_toNat (eligibleVoters : UInt64) :
    (computeEligibleVoterQuorum eligibleVoters).toNat = eligibleVoters.toNat / 20 := by
  have share : (computeEligibleVoterQuorum eligibleVoters).toNat =
      eligibleVoters.toNat * tierLowBps.toNat / 10000 :=
    computeThreshold_exact eligibleVoters (by decide)
  have tier : tierLowBps.toNat = 500 := rfl
  rw [share, tier]
  omega

/-- The sum is compared with the half of the supply, whether it fits or not. -/
theorem exceedsTreasuryCap_exact (treasuryBalance deposit totalSupply : UInt64) :
    exceedsTreasuryCap treasuryBalance deposit totalSupply = true ↔
      totalSupply.toNat * tierHighBps.toNat <
        (treasuryBalance.toNat + deposit.toNat) * 10000 := by
  have cap : (computeThreshold totalSupply tierHighBps).toNat =
      totalSupply.toNat * tierHighBps.toNat / 10000 :=
    computeThreshold_exact totalSupply (by decide)
  have supply := totalSupply.toNat_lt
  have balance := treasuryBalance.toNat_lt
  have tier : tierHighBps.toNat = 5000 := rfl
  have last : (0xffffffffffffffff : UInt64).toNat = 2 ^ 64 - 1 := rfl
  have room : (0xffffffffffffffff - treasuryBalance).toNat =
      2 ^ 64 - 1 - treasuryBalance.toNat := by
    rw [toNat_sub_of_le (UInt64.le_iff_toNat_le.mpr (by omega)), last]
  unfold exceedsTreasuryCap
  dsimp only
  split
  · rename_i turns
    have exceeds : 2 ^ 64 - 1 - treasuryBalance.toNat < deposit.toNat := by
      rw [← room]
      exact UInt64.lt_iff_toNat_lt.mp turns
    rw [tier]
    exact iff_of_true rfl (by omega)
  · rename_i fits
    have within : deposit.toNat ≤ 2 ^ 64 - 1 - treasuryBalance.toNat := by
      rw [← room]
      exact UInt64.le_iff_toNat_le.mp (UInt64.not_lt.mp fits)
    rw [decide_eq_true_eq, gt_iff_lt, UInt64.lt_iff_toNat_lt, cap, toNat_add_of_fits (by omega),
      Nat.div_lt_iff_lt_mul (by decide)]

/-- A comparison of two products that wrap. -/
theorem isBondingHealthy_iff {bondedSupply totalSupply : UInt64} {minBps : UInt32} :
    isBondingHealthy bondedSupply totalSupply minBps = true ↔
      totalSupply ≠ 0 ∧ totalSupply.toNat * minBps.toNat % 2 ^ 64 ≤
        bondedSupply.toNat * 10000 % 2 ^ 64 := by
  unfold isBondingHealthy
  by_cases none : totalSupply = 0
  · rw [if_pos none]
    exact iff_of_false nofun fun both => both.1 none
  · rw [if_neg none, decide_eq_true_eq, ge_iff_le, UInt64.le_iff_toNat_le, UInt64.toNat_mul,
      UInt64.toNat_mul, UInt32.toNat_toUInt64]
    exact (and_iff_right none).symm

theorem isBondingHealthy_exact_iff {bondedSupply totalSupply : UInt64} {minBps : UInt32} :
    (isBondingHealthy bondedSupply totalSupply minBps = true ↔
        totalSupply ≠ 0 ∧ totalSupply.toNat * minBps.toNat ≤ bondedSupply.toNat * 10000) ↔
      totalSupply = 0 ∨
        KeepsOrder (2 ^ 64) (bondedSupply.toNat * 10000) (totalSupply.toNat * minBps.toNat) := by
  rw [isBondingHealthy_iff, and_congr_right_iff, mod_le_mod_iff, ← or_iff_not_imp_left]

theorem isWhale_eq (rawPower totalSupply : UInt64) :
    isWhale rawPower totalSupply = isBondingHealthy rawPower totalSupply tierMidBps := rfl

end SupplyPolicy

namespace AntiWhaleGuard

open SupplyPolicy

theorem isWhale_iff {guard : AntiWhaleGuard} {rawPower totalSupply : UInt64} :
    guard.isWhale rawPower totalSupply = true ↔
      (totalSupply ≠ 0 ∧ guard.config.whaleThresholdBps ≠ 0) ∧
        min (totalSupply.toNat * guard.config.whaleThresholdBps.toNat) (2 ^ 64 - 1) <
          min (rawPower.toNat * 10000) (2 ^ 64 - 1) := by
  unfold isWhale
  by_cases off : totalSupply = 0 ∨ guard.config.whaleThresholdBps = 0
  · rw [if_pos off]
    exact iff_of_false nofun fun both => off.elim both.1.1 both.1.2
  · obtain ⟨supplied, enabled⟩ := not_or.mp off
    have power : (if rawPower ≤ 0xffffffffffffffff / 10000 then rawPower * 10000
        else 0xffffffffffffffff).toNat = min (rawPower.toNat * 10000) (2 ^ 64 - 1) :=
      capped_toNat (by decide)
    rw [if_neg off, and_iff_right ⟨supplied, enabled⟩]
    simp only [enabled, false_or]
    rw [decide_eq_true_eq, gt_iff_lt, UInt64.lt_iff_toNat_lt, capped_toNat enabled, power]

theorem isWhale_exact_iff {guard : AntiWhaleGuard} {rawPower totalSupply : UInt64} :
    (guard.isWhale rawPower totalSupply = true ↔
        (totalSupply ≠ 0 ∧ guard.config.whaleThresholdBps ≠ 0) ∧
          totalSupply.toNat * guard.config.whaleThresholdBps.toNat < rawPower.toNat * 10000) ↔
      totalSupply.toNat * guard.config.whaleThresholdBps.toNat < 2 ^ 64 - 1 ∨
        rawPower.toNat * 10000 ≤
          totalSupply.toNat * guard.config.whaleThresholdBps.toNat := by
  rw [isWhale_iff, and_congr_right_iff, min_lt_min_iff]
  constructor
  · intro kept
    by_cases off : totalSupply = 0 ∨ guard.config.whaleThresholdBps = 0
    · left
      rcases off with none | none
      · rw [none, UInt64.toNat_zero, Nat.zero_mul]
        decide
      · rw [none, UInt64.toNat_zero, Nat.mul_zero]
        decide
    · exact kept (not_or.mp off)
  · exact fun kept _ => kept

end AntiWhaleGuard

namespace SupplyPolicy

/-- The threshold is the share rounded down, and the tests are the comparisons of the shares, in
exact arithmetic. -/
structure SharesExact (supply : UInt64) (bps : UInt32) (amount deposit totalSupply : UInt64)
    (guard : AntiWhaleGuard) : Prop where
  threshold : (computeThreshold supply bps).toNat = supply.toNat * bps.toNat / 10000
  bonding : isBondingHealthy amount totalSupply bps = true ↔
    totalSupply ≠ 0 ∧ totalSupply.toNat * bps.toNat ≤ amount.toNat * 10000
  treasuryCap : exceedsTreasuryCap amount deposit totalSupply = true ↔
    totalSupply.toNat * tierHighBps.toNat < (amount.toNat + deposit.toNat) * 10000
  whale : isWhale amount totalSupply = true ↔
    totalSupply ≠ 0 ∧ totalSupply.toNat * tierMidBps.toNat ≤ amount.toNat * 10000
  guard : guard.isWhale amount totalSupply = true ↔
    (totalSupply ≠ 0 ∧ guard.config.whaleThresholdBps ≠ 0) ∧
      totalSupply.toNat * guard.config.whaleThresholdBps.toNat < amount.toNat * 10000

/-- The products that are left to wrap keep their order, and those that are capped do not both
reach the cap where the amount is the larger share. -/
structure ProductsCompare (bps : UInt32) (amount totalSupply : UInt64) (guard : AntiWhaleGuard) :
    Prop where
  bonding : totalSupply = 0 ∨
    KeepsOrder (2 ^ 64) (amount.toNat * 10000) (totalSupply.toNat * bps.toNat)
  whale : totalSupply = 0 ∨
    KeepsOrder (2 ^ 64) (amount.toNat * 10000) (totalSupply.toNat * tierMidBps.toNat)
  guard : totalSupply.toNat * guard.config.whaleThresholdBps.toNat < 2 ^ 64 - 1 ∨
    amount.toNat * 10000 ≤ totalSupply.toNat * guard.config.whaleThresholdBps.toNat

theorem shares_exact_iff (supply : UInt64) {bps : UInt32} (small : bps ≤ 10000)
    (amount deposit totalSupply : UInt64) (guard : AntiWhaleGuard) :
    SharesExact supply bps amount deposit totalSupply guard ↔
      ProductsCompare bps amount totalSupply guard := by
  constructor
  · intro exact_
    exact ⟨isBondingHealthy_exact_iff.mp exact_.bonding, isBondingHealthy_exact_iff.mp exact_.whale,
      AntiWhaleGuard.isWhale_exact_iff.mp exact_.guard⟩
  · intro compare
    exact ⟨computeThreshold_exact supply small, isBondingHealthy_exact_iff.mpr compare.bonding,
      exceedsTreasuryCap_exact amount deposit totalSupply,
      isBondingHealthy_exact_iff.mpr compare.whale,
      AntiWhaleGuard.isWhale_exact_iff.mpr compare.guard⟩

/-- Under a strict reading of the whale test an amount that is exactly the share is refused too. -/
theorem isWhale_strict_iff {rawPower totalSupply : UInt64} :
    (isWhale rawPower totalSupply = true ↔
        totalSupply ≠ 0 ∧ totalSupply.toNat * tierMidBps.toNat < rawPower.toNat * 10000) ↔
      totalSupply = 0 ∨
        totalSupply.toNat * tierMidBps.toNat ≠ rawPower.toNat * 10000 ∧
          KeepsOrder (2 ^ 64) (rawPower.toNat * 10000) (totalSupply.toNat * tierMidBps.toNat) := by
  rw [isWhale_eq, isBondingHealthy_iff, and_congr_right_iff, ← or_iff_not_imp_left,
    ← mod_le_mod_iff]
  refine or_congr_right ?_
  by_cases same : totalSupply.toNat * tierMidBps.toNat = rawPower.toNat * 10000
  · simp [same]
  · simp only [ne_eq, same, not_false_eq_true, true_and, Nat.lt_iff_le_and_ne, and_true]

theorem small_shares_exact :
    SharesExact 41000000 500 3000000 100 41000000 ⟨⟨false, 0, 1000⟩⟩ :=
  (shares_exact_iff 41000000 (by decide) 3000000 100 41000000 ⟨⟨false, 0, 1000⟩⟩).mpr
    ⟨by decide, by decide, by decide⟩

/-- All of a supply is bonded, and ten thousand times that turns over. -/
theorem fully_bonded_unhealthy :
    ¬ ∀ (supply : UInt64) (bps : UInt32) (amount deposit totalSupply : UInt64)
      (guard : AntiWhaleGuard), bps ≤ 10000 → guard.config.whaleThresholdBps ≤ 10000 →
      amount ≤ AssetSupply.oblMaxSupply → deposit ≤ AssetSupply.oblMaxSupply →
      totalSupply ≤ AssetSupply.oblMaxSupply →
        SharesExact supply bps amount deposit totalSupply guard := by
  intro claim
  have bonding := (claim 0 500 1844674407370956 0 1844674407370956 ⟨⟨false, 0, 1000⟩⟩ (by decide)
    (by decide) (by decide) (by decide) (by decide)).bonding
  revert bonding
  decide

end SupplyPolicy

end Parthenon.Governance
