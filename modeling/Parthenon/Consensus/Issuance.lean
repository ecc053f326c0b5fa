import Parthenon.Primitives.Asset
import Parthenon.Library.Sums

namespace Parthenon.Consensus

open Parthenon.Library Parthenon.Primitives

namespace Issuance

def halvingInterval : UInt64 := 210000

def getInitialReward (asset : AssetID) : UInt64 :=
  if asset = .talanton then 50 * AssetSupply.baseUnit
  else if asset = .drachma then 97 * AssetSupply.baseUnit
  else if asset = .obolos then 145 * AssetSupply.baseUnit
  else 0

/-- The launch height of an asset; other identifiers are never issued. -/
def startHeight (asset : AssetID) : Option UInt64 :=
  if asset = .talanton then some 0
  else if asset = .drachma then some halvingInterval
  else if asset = .obolos then some (2 * halvingInterval)
  else none

def getBlockReward (height : UInt64) (asset : AssetID) : UInt64 :=
  match startHeight asset with
  | none => 0
  | some start =>
      if height < start then 0
      else
        let halvings := (height - start) / halvingInterval
        if halvings ≥ 64 then 0 else getInitialReward asset >>> halvings

theorem getBlockReward_le (height : UInt64) (asset : AssetID) :
    getBlockReward height asset ≤ getInitialReward asset := by
  rw [getBlockReward]
  cases startHeight asset with
  | none => exact UInt64.zero_le
  | some start =>
      dsimp only
      split
      · exact UInt64.zero_le
      · split
        · exact UInt64.zero_le
        · rw [UInt64.le_iff_toNat_le, UInt64.toNat_shiftRight, Nat.shiftRight_eq_div_pow]
          exact Nat.div_le_self _ _

/-- The epoch loop of `CalculateSupplyAtHeight` with the number of epochs left. -/
def addEpochs (asset : AssetID) : Nat → UInt64 → UInt64 → UInt64
  | 0, _, totalSupply => totalSupply
  | epochs + 1, remainingHeight, totalSupply =>
      if remainingHeight = 0 then totalSupply
      else
        let blocksInEpoch :=
          if remainingHeight > halvingInterval then halvingInterval else remainingHeight
        let reward := getInitialReward asset >>> UInt64.ofNat (63 - epochs)
        let epochSupply := blocksInEpoch * reward
        if epochSupply / blocksInEpoch ≠ reward then AssetSupply.getMaxSupply asset
        else if totalSupply + epochSupply < totalSupply then AssetSupply.getMaxSupply asset
        else addEpochs asset epochs (remainingHeight - blocksInEpoch) (totalSupply + epochSupply)

def calculateSupplyAtHeight (height : UInt64) (asset : AssetID) : UInt64 :=
  match startHeight asset with
  | none => 0
  | some start => if height < start then 0 else addEpochs asset 64 (height - start) 0

def isValidBlockReward (height : UInt64) (asset : AssetID) (amount : UInt64) : Bool :=
  amount ≤ getBlockReward height asset &&
    calculateSupplyAtHeight (height + 1) asset ≤ AssetSupply.getMaxSupply asset

end Issuance

/-! ## The issuance schedule sums up

The loop over halving epochs adds, epoch by epoch, the rewards of the blocks below a
height.  Twice the first epoch stays within the cap, so no addition overflows.
-/

namespace Issuance

/-- The reward of a block in an epoch. -/
def epochReward (asset : AssetID) (epoch : Nat) : Nat :=
  if epoch < 64 then (getInitialReward asset).toNat / 2 ^ epoch else 0

/-- The positions of an epoch. -/
def interval : Nat := halvingInterval.toNat

theorem interval_pos : 0 < interval := by decide

theorem epochReward_le (asset : AssetID) (epoch : Nat) :
    epochReward asset epoch ≤ (getInitialReward asset).toNat / 2 ^ epoch := by
  rw [epochReward]
  split
  · exact Nat.le_refl _
  · exact Nat.zero_le _

theorem epochReward_beyond (asset : AssetID) (epoch : Nat) (past : 64 ≤ epoch) :
    epochReward asset epoch = 0 := if_neg (Nat.not_lt.mpr past)

theorem shiftedReward_toNat (asset : AssetID) {epoch : Nat} (within : epoch < 64) :
    (getInitialReward asset >>> UInt64.ofNat epoch).toNat = epochReward asset epoch := by
  have small : epoch % 2 ^ 64 % 64 = epoch := by omega
  rw [UInt64.toNat_shiftRight, UInt64.toNat_ofNat', small, Nat.shiftRight_eq_div_pow, epochReward,
    if_pos within]

theorem twice_first_epoch_le (asset : AssetID) :
    interval * (2 * (getInitialReward asset).toNat) ≤ (AssetSupply.getMaxSupply asset).toNat := by
  unfold getInitialReward AssetSupply.getMaxSupply
  split
  · decide
  · split
    · decide
    · split
      · decide
      · decide

theorem epochSum_le_max (asset : AssetID) (positions : Nat) :
    epochSum (epochReward asset) interval positions ≤ (AssetSupply.getMaxSupply asset).toNat := by
  have halved : ∑ epoch ∈ Finset.range positions, epochReward asset epoch ≤
      2 * (getInitialReward asset).toNat :=
    Nat.le_trans (Finset.sum_le_sum fun epoch _ => epochReward_le asset epoch)
      (sum_halvings_le _ positions)
  calc epochSum (epochReward asset) interval positions
      ≤ epochSum (epochReward asset) interval (positions * interval) :=
        epochSum_mono _ _ (Nat.le_mul_of_pos_right positions interval_pos)
    _ = interval * ∑ epoch ∈ Finset.range positions, epochReward asset epoch :=
        epochSum_epochs _ _ positions
    _ ≤ interval * (2 * (getInitialReward asset).toNat) := Nat.mul_le_mul_left _ halved
    _ ≤ (AssetSupply.getMaxSupply asset).toNat := twice_first_epoch_le asset

/-- The epoch loop, where taking an overflow branch is a failure. -/
def addEpochsChecked (asset : AssetID) : Nat → UInt64 → UInt64 → Option UInt64
  | 0, _, totalSupply => some totalSupply
  | epochs + 1, remainingHeight, totalSupply =>
      if remainingHeight = 0 then some totalSupply
      else
        let blocksInEpoch :=
          if remainingHeight > halvingInterval then halvingInterval else remainingHeight
        let reward := getInitialReward asset >>> UInt64.ofNat (63 - epochs)
        let epochSupply := blocksInEpoch * reward
        if epochSupply / blocksInEpoch ≠ reward then none
        else if totalSupply + epochSupply < totalSupply then none
        else addEpochsChecked asset epochs (remainingHeight - blocksInEpoch)
          (totalSupply + epochSupply)

/-- The supply at a height, where taking an overflow branch is a failure. -/
def calculateSupplyChecked (height : UInt64) (asset : AssetID) : Option UInt64 :=
  match startHeight asset with
  | none => some 0
  | some start =>
      if height < start then some 0 else addEpochsChecked asset 64 (height - start) 0

theorem addEpochs_eq_checked (asset : AssetID) (epochs : Nat) (remainingHeight totalSupply : UInt64) :
    addEpochs asset epochs remainingHeight totalSupply =
      (addEpochsChecked asset epochs remainingHeight totalSupply).getD
        (AssetSupply.getMaxSupply asset) := by
  induction epochs generalizing remainingHeight totalSupply with
  | zero => rfl
  | succ epochs ih =>
      rw [addEpochs, addEpochsChecked]
      by_cases done : remainingHeight = 0
      · rw [if_pos done, if_pos done]
        rfl
      · rw [if_neg done, if_neg done]
        generalize (if remainingHeight > halvingInterval then halvingInterval
          else remainingHeight) = blocks
        dsimp only
        split
        · rfl
        · split
          · rfl
          · exact ih _ _

/-- What one turn of the loop adds.  The sum up to the end of the epoch is within the
cap, so neither overflow branch is taken. -/
theorem epoch_adds (asset : AssetID) {epoch : Nat} (early : epoch < 64) {blocks totalSupply : UInt64}
    (some_ : 0 < blocks.toNat) (within : blocks.toNat ≤ interval)
    (total : totalSupply.toNat = epochSum (epochReward asset) interval (epoch * interval)) :
    blocks * (getInitialReward asset >>> UInt64.ofNat epoch) / blocks =
        getInitialReward asset >>> UInt64.ofNat epoch ∧
      ¬ totalSupply + blocks * (getInitialReward asset >>> UInt64.ofNat epoch) < totalSupply ∧
      (totalSupply + blocks * (getInitialReward asset >>> UInt64.ofNat epoch)).toNat =
        epochSum (epochReward asset) interval (epoch * interval + blocks.toNat) := by
  have reward := shiftedReward_toNat asset early
  have sum := epochSum_within (epochReward asset) interval epoch within
  have cap := epochSum_le_max asset (epoch * interval + blocks.toNat)
  have small := (AssetSupply.getMaxSupply asset).toNat_lt
  have product : (blocks * (getInitialReward asset >>> UInt64.ofNat epoch)).toNat =
      blocks.toNat * epochReward asset epoch := by
    rw [UInt64.toNat_mul, reward]
    exact Nat.mod_eq_of_lt (by omega)
  have added : (totalSupply + blocks * (getInitialReward asset >>> UInt64.ofNat epoch)).toNat =
      epochSum (epochReward asset) interval (epoch * interval + blocks.toNat) := by
    rw [toNat_add_of_fits (by rw [product]; omega), product, total, sum]
  refine ⟨?_, ?_, added⟩
  · apply UInt64.toNat_inj.mp
    rw [UInt64.toNat_div, product, reward]
    exact Nat.mul_div_cancel_left _ some_
  · rw [UInt64.lt_iff_toNat_lt, added, total]
    exact Nat.not_lt.mpr (epochSum_mono _ _ (Nat.le_add_right _ _))

theorem blocksInEpoch_toNat (remainingHeight : UInt64) :
    (if remainingHeight > halvingInterval then halvingInterval else remainingHeight).toNat =
      min interval remainingHeight.toNat := by
  by_cases more : remainingHeight > halvingInterval
  · rw [if_pos more]
    exact (Nat.min_eq_left (Nat.le_of_lt (UInt64.lt_iff_toNat_lt.mp more))).symm
  · rw [if_neg more]
    rw [GT.gt, UInt64.lt_iff_toNat_lt] at more
    exact (Nat.min_eq_right (Nat.not_lt.mp more)).symm

theorem addEpochsChecked_done (asset : AssetID) (epochs : Nat) (totalSupply : UInt64) :
    addEpochsChecked asset epochs 0 totalSupply = some totalSupply := by
  cases epochs with
  | zero => rfl
  | succ epochs => rw [addEpochsChecked, if_pos rfl]

/-- The loop reaches its end with the sum over the positions it was given. -/
theorem addEpochsChecked_eq (asset : AssetID) {epochs : Nat} (within : epochs ≤ 64)
    (remainingHeight : UInt64) {totalSupply : UInt64}
    (total : totalSupply.toNat =
      epochSum (epochReward asset) interval ((64 - epochs) * interval)) :
    ∃ supply, addEpochsChecked asset epochs remainingHeight totalSupply = some supply ∧
      supply.toNat = epochSum (epochReward asset) interval
        ((64 - epochs) * interval + remainingHeight.toNat) := by
  induction epochs generalizing remainingHeight totalSupply with
  | zero =>
      refine ⟨totalSupply, rfl, ?_⟩
      rw [epochSum_beyond _ _ (epochReward_beyond asset) interval_pos, total]
  | succ epochs ih =>
      by_cases done : remainingHeight = 0
      · refine ⟨totalSupply, done ▸ addEpochsChecked_done asset (epochs + 1) totalSupply, ?_⟩
        rw [total, done, UInt64.toNat_zero]
        exact congrArg _ (Nat.add_zero _).symm
      · have some_ : 0 < remainingHeight.toNat :=
          Nat.pos_of_ne_zero fun zero => done (UInt64.toNat_inj.mp zero)
        have positive := interval_pos
        have blocksValue := blocksInEpoch_toNat remainingHeight
        rw [addEpochsChecked, if_neg done]
        generalize (if remainingHeight > halvingInterval then halvingInterval
          else remainingHeight) = blocks at blocksValue ⊢
        have epoch : 64 - (epochs + 1) = 63 - epochs := by omega
        rw [epoch] at total ⊢
        obtain ⟨exactQuotient, noWrap, added⟩ :=
          epoch_adds asset (show 63 - epochs < 64 by omega)
            (show 0 < blocks.toNat by omega) (by omega) total
        have left_ : (remainingHeight - blocks).toNat = remainingHeight.toNat - blocks.toNat :=
          toNat_sub_of_le (UInt64.le_iff_toNat_le.mpr (by omega))
        dsimp only
        rw [if_neg (not_not.mpr exactQuotient), if_neg noWrap]
        by_cases whole : interval ≤ remainingHeight.toNat
        · have full : blocks.toNat = interval := by omega
          have nextEpoch : (63 - epochs) * interval + interval = (64 - epochs) * interval := by
            rw [← Nat.succ_mul]
            exact congrArg (· * interval) (by omega)
          rw [full, nextEpoch] at added
          obtain ⟨supply, ended, value⟩ := ih (by omega) (remainingHeight - blocks) added
          refine ⟨supply, ended, ?_⟩
          rw [value, left_, full, ← nextEpoch]
          exact congrArg _ (by omega)
        · have last : blocks.toNat = remainingHeight.toNat := by omega
          have nothing : remainingHeight - blocks = 0 :=
            UInt64.toNat_inj.mp (by rw [left_, last]; exact Nat.sub_self _)
          refine ⟨_, ?_, last ▸ added⟩
          rw [nothing]
          exact addEpochsChecked_done asset epochs _

theorem calculateSupplyChecked_eq (height : UInt64) (asset : AssetID) :
    ∃ supply, calculateSupplyChecked height asset = some supply ∧ supply.toNat =
      match startHeight asset with
      | none => 0
      | some start => epochSum (epochReward asset) interval (height.toNat - start.toNat) := by
  rw [calculateSupplyChecked]
  cases startHeight asset with
  | none => exact ⟨0, rfl, rfl⟩
  | some start =>
      dsimp only
      by_cases early : height < start
      · have before : height.toNat - start.toNat = 0 :=
          Nat.sub_eq_zero_of_le (Nat.le_of_lt (UInt64.lt_iff_toNat_lt.mp early))
        rw [if_pos early, before]
        exact ⟨0, rfl, rfl⟩
      · have late : start ≤ height := UInt64.not_lt.mp early
        have zero : (0 : UInt64).toNat =
            epochSum (epochReward asset) interval ((64 - 64) * interval) := rfl
        obtain ⟨supply, ended, value⟩ :=
          addEpochsChecked_eq asset (Nat.le_refl 64) (height - start) zero
        rw [if_neg early]
        refine ⟨supply, ended, ?_⟩
        rw [value, toNat_sub_of_le late, Nat.sub_self, Nat.zero_mul, Nat.zero_add]

theorem calculateSupplyAtHeight_eq_checked (height : UInt64) (asset : AssetID) :
    calculateSupplyAtHeight height asset =
      (calculateSupplyChecked height asset).getD (AssetSupply.getMaxSupply asset) := by
  rw [calculateSupplyAtHeight, calculateSupplyChecked]
  cases startHeight asset with
  | none => rfl
  | some start =>
      dsimp only
      split
      · rfl
      · exact addEpochs_eq_checked asset 64 (height - start) 0

theorem getBlockReward_toNat (height : UInt64) (asset : AssetID) :
    (getBlockReward height asset).toNat =
      match startHeight asset with
      | none => 0
      | some start =>
          if height.toNat < start.toNat then 0
          else epochReward asset ((height.toNat - start.toNat) / interval) := by
  rw [getBlockReward]
  cases startHeight asset with
  | none => rfl
  | some start =>
      dsimp only
      by_cases early : height < start
      · rw [if_pos early, if_pos (UInt64.lt_iff_toNat_lt.mp early)]
        rfl
      · have late : start ≤ height := UInt64.not_lt.mp early
        have halvings : ((height - start) / halvingInterval).toNat =
            (height.toNat - start.toNat) / interval := by
          rw [UInt64.toNat_div, toNat_sub_of_le late, interval]
        rw [if_neg early, if_neg (mt UInt64.lt_iff_toNat_lt.mpr early)]
        by_cases past : (height - start) / halvingInterval ≥ 64
        · have beyond : 64 ≤ (height.toNat - start.toNat) / interval :=
            halvings ▸ UInt64.le_iff_toNat_le.mp past
          rw [if_pos past, epochReward_beyond asset _ beyond]
          rfl
        · have within : (height.toNat - start.toNat) / interval < 64 :=
            halvings ▸ UInt64.lt_iff_toNat_lt.mp (UInt64.not_le.mp past)
          have same : (height - start) / halvingInterval =
              UInt64.ofNat ((height.toNat - start.toNat) / interval) := by
            rw [← halvings, UInt64.ofNat_toNat]
          rw [if_neg past, same, shiftedReward_toNat asset within]

/-- The rewards of the blocks below a height, added up exactly. -/
theorem sum_getBlockReward (height : UInt64) (asset : AssetID) :
    ∑ k ∈ Finset.range height.toNat, (getBlockReward (UInt64.ofNat k) asset).toNat =
      match startHeight asset with
      | none => 0
      | some start => epochSum (epochReward asset) interval (height.toNat - start.toNat) := by
  have small := height.toNat_lt
  have each : ∀ k ∈ Finset.range height.toNat, (getBlockReward (UInt64.ofNat k) asset).toNat =
      match startHeight asset with
      | none => 0
      | some start =>
          if k < start.toNat then 0 else epochReward asset ((k - start.toNat) / interval) := by
    intro k member
    have below := Finset.mem_range.mp member
    rw [getBlockReward_toNat, UInt64.toNat_ofNat', Nat.mod_eq_of_lt (Nat.lt_trans below small)]
  rw [Finset.sum_congr rfl each]
  cases startHeight asset with
  | none => exact Finset.sum_const_zero
  | some start => exact sum_delayed _ _ start.toNat height.toNat

theorem calculateSupplyAtHeight_toNat (height : UInt64) (asset : AssetID) :
    (calculateSupplyAtHeight height asset).toNat =
      ∑ k ∈ Finset.range height.toNat, (getBlockReward (UInt64.ofNat k) asset).toNat := by
  obtain ⟨supply, checked, value⟩ := calculateSupplyChecked_eq height asset
  rw [calculateSupplyAtHeight_eq_checked, checked, Option.getD_some, value, sum_getBlockReward]

theorem calculateSupplyAtHeight_le_max (height : UInt64) (asset : AssetID) :
    calculateSupplyAtHeight height asset ≤ AssetSupply.getMaxSupply asset := by
  rw [UInt64.le_iff_toNat_le, calculateSupplyAtHeight_toNat, sum_getBlockReward]
  cases startHeight asset with
  | none => exact Nat.zero_le _
  | some start => exact epochSum_le_max asset _

theorem isValidBlockReward_iff (height : UInt64) (asset : AssetID) (amount : UInt64) :
    isValidBlockReward height asset amount = true ↔ amount ≤ getBlockReward height asset := by
  rw [isValidBlockReward, decide_eq_true (calculateSupplyAtHeight_le_max (height + 1) asset),
    Bool.and_true, decide_eq_true_iff]

/-- The supply at a height is the exact sum of the rewards below it, within the cap and
without an overflow branch taken, so a reward is valid when it is no more than scheduled. -/
theorem issuance_sums_rewards (asset : AssetID) (height : UInt64) :
    (calculateSupplyAtHeight height asset).toNat =
        ∑ k ∈ Finset.range height.toNat, (getBlockReward (UInt64.ofNat k) asset).toNat ∧
      calculateSupplyAtHeight height asset ≤ AssetSupply.getMaxSupply asset ∧
      calculateSupplyChecked height asset = some (calculateSupplyAtHeight height asset) ∧
      ∀ amount, isValidBlockReward height asset amount = true ↔
        amount ≤ getBlockReward height asset := by
  refine ⟨calculateSupplyAtHeight_toNat height asset, calculateSupplyAtHeight_le_max height asset,
    ?_, isValidBlockReward_iff height asset⟩
  obtain ⟨supply, checked, _⟩ := calculateSupplyChecked_eq height asset
  rw [calculateSupplyAtHeight_eq_checked, checked, Option.getD_some]

end Issuance

end Parthenon.Consensus
