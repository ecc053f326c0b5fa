import Parthenon.Chainstate.Atomicity
import Parthenon.Chainstate.Undo
import Parthenon.Library.Runs

namespace Parthenon.Chainstate

open Parthenon.Library Parthenon.Crypto Parthenon.Primitives Parthenon.Consensus

/-! # Monetary soundness

The coins of an asset in the UTXO set never add up to more than the recorded
supply, in runs that stay clear of the ways in which the chain loses count: a
block that stops half way, an output sum that wraps, and a disconnection out of turn.
-/

/-- What a coin adds to the total of an asset. -/
def coinAmount (asset : AssetID) (_ : OutPoint) (coin : Coin) : Nat :=
  if coin.output.value.asset = asset then coin.output.value.amount.toNat else 0

/-- The exact sum of the coins of one asset. -/
def assetTotal (asset : AssetID) (set : UTXOSet) : Nat := total (coinAmount asset) set

theorem assetTotal_mono {larger smaller : UTXOSet} (contains : larger.Contains smaller)
    (asset : AssetID) : assetTotal asset smaller ≤ assetTotal asset larger :=
  total_mono _ contains

/-- Spending distinct coins takes exactly their amounts out of the set. -/
theorem assetTotal_spend (asset : AssetID) {before set : UTXOSet} {height : UInt32}
    {outpoints : List OutPoint} {coins : List Coin} (distinct : outpoints.Nodup)
    (taken : List.Forall₂ (fun spent coin => before.getCoin spent = some coin ∧
      coin.isSpendable height = true) outpoints coins)
    (kept : ∀ outpoint ∈ outpoints, set.getCoin outpoint = before.getCoin outpoint) :
    assetTotal asset set = AmountMap.exactSum asset (coins.map (·.output.value)) +
      assetTotal asset (applyUpdates set (outpoints.map fun outpoint => (outpoint, none))) := by
  induction taken generalizing set with
  | nil => simp
  | @cons spent coin rest others first _ ih =>
      obtain ⟨fresh, restDistinct⟩ := List.nodup_cons.mp distinct
      obtain ⟨here, later⟩ := List.forall_mem_cons.mp kept
      have found : set[spent]? = some coin := here.trans first.1
      have removed : ∀ outpoint ∈ rest,
          UTXOSet.getCoin (set.erase spent) outpoint = before.getCoin outpoint := by
        intro outpoint member
        have different : spent ≠ outpoint := by
          rintro rfl
          exact fresh member
        rw [UTXOSet.getCoin, getElem?_erase_eq, if_neg different]
        exact later outpoint member
      calc assetTotal asset set
          = coinAmount asset spent coin + assetTotal asset (set.erase spent) :=
            total_of_found (coinAmount asset) found
        _ = coinAmount asset spent coin +
              (AmountMap.exactSum asset (others.map (·.output.value)) +
                assetTotal asset (applyUpdates (set.erase spent)
                  (rest.map fun outpoint => (outpoint, none)))) := by
            rw [ih restDistinct removed]
        _ = _ := by
            rw [List.map_cons, AmountMap.exactSum_cons, ← Nat.add_assoc]
            rfl

theorem assetTotal_create_le (asset : AssetID) (created : List (OutPoint × Coin)) (set : UTXOSet) :
    assetTotal asset (applyUpdates set (created.map fun entry => (entry.1, some entry.2))) ≤
      AmountMap.exactSum asset (created.map (·.2.output.value)) + assetTotal asset set := by
  induction created generalizing set with
  | nil => simp
  | cons entry rest ih =>
      have later := ih (set.insert entry.1 entry.2)
      have here : assetTotal asset (set.insert entry.1 entry.2) ≤
          coinAmount asset entry.1 entry.2 + assetTotal asset set :=
        total_insert_le (coinAmount asset) set entry.1 entry.2
      rw [List.map_cons, List.map_cons, AmountMap.exactSum_cons]
      change assetTotal asset (applyUpdates (set.insert entry.1 entry.2)
        (rest.map fun entry => (entry.1, some entry.2))) ≤
          coinAmount asset entry.1 entry.2 + _ + assetTotal asset set
      omega

theorem createdCoins_values (tx : Transaction) (height : UInt32) (isCoinbase : Bool) :
    (createdCoins tx height isCoinbase).map (·.2.output.value) = tx.outputs.map TxOutput.value := by
  apply List.ext_getElem
  · simp [createdCoins]
  · intro index inCoins inOutputs
    simp [createdCoins]

/-- The exact amount of an asset a transaction pays out. -/
def paidOut (asset : AssetID) (tx : Transaction) : Nat :=
  AmountMap.exactSum asset (tx.outputs.map TxOutput.value)

theorem assetTotal_addOutputs_le (asset : AssetID) (set : UTXOSet) (tx : Transaction)
    (height : UInt32) (isCoinbase : Bool) :
    assetTotal asset (set.addOutputs tx height isCoinbase) ≤
      paidOut asset tx + assetTotal asset set := by
  rw [UTXOSet.addOutputs_eq, createUpdates, paidOut, ← createdCoins_values tx height isCoinbase]
  exact assetTotal_create_le asset (createdCoins tx height isCoinbase) set

namespace Chain

/-- A valid transaction whose outputs do not wrap pays out no more than it spends. -/
theorem assetTotal_processed_le {asset : AssetID} {set : UTXOSet} {tx : Transaction}
    {height : UInt32} {coins : List Coin} (ordinary : tx.isCoinbase = false)
    (distinct : tx.prevouts.Nodup) (valid : validateTransaction set tx height = some coins)
    (bounded : assetTotal asset set < 2 ^ 64) (exactOut : paidOut asset tx < 2 ^ 64) :
    assetTotal asset ((set.spendInputs tx).addOutputs tx height false) ≤ assetTotal asset set := by
  obtain ⟨taken, covered⟩ := (validateTransaction_eq_some ordinary).mp valid
  have spent : assetTotal asset set = _ :=
    assetTotal_spend asset distinct (inputCoins_eq_some.mp taken) fun _ _ => rfl
  rw [← spendUpdates, ← UTXOSet.spendInputs_eq] at spent
  have added := assetTotal_addOutputs_le asset (set.spendInputs tx) tx height false
  have exactIn : AmountMap.exactSum asset (coins.map (·.output.value)) < 2 ^ 64 := by omega
  have enough := UInt64.le_iff_toNat_le.mp (AmountMap.covers_iff.mp covered asset)
  rw [AmountMap.sum_toNat_of_lt exactIn, AmountMap.sum_toNat_of_lt exactOut] at enough
  rw [paidOut] at added
  omega

theorem Connects.assetTotal_le {asset : AssetID} {set after : UTXOSet} {height : UInt32}
    {txs : List Transaction} {undos : List (List Coin)}
    (connects : Connects height set txs undos after)
    (ordinary : ∀ tx ∈ txs, tx.isCoinbase = false) (distinct : ∀ tx ∈ txs, tx.prevouts.Nodup)
    (bounded : assetTotal asset set < 2 ^ 64) (exactOut : ∀ tx ∈ txs, paidOut asset tx < 2 ^ 64) :
    assetTotal asset after ≤ assetTotal asset set := by
  induction connects with
  | nil => exact Nat.le_refl _
  | cons valid _ ih =>
      obtain ⟨txOrdinary, restOrdinary⟩ := List.forall_mem_cons.mp ordinary
      obtain ⟨txDistinct, restDistinct⟩ := List.forall_mem_cons.mp distinct
      obtain ⟨txExact, restExact⟩ := List.forall_mem_cons.mp exactOut
      have here := assetTotal_processed_le txOrdinary txDistinct valid bounded txExact
      have later := ih restOrdinary restDistinct (by omega) restExact
      omega

/-- Coins are covered by the recorded supply, and the supply by its cap. -/
def Sound (chain : Chain) : Prop :=
  ∀ asset ∈ AssetID.native,
    assetTotal asset chain.utxoSet ≤ (chain.getTotalSupply asset).toNat ∧
      chain.getTotalSupply asset ≤ AssetSupply.getMaxSupply asset

theorem checkRewards_bounds {height : UInt32} {amounts : List (AssetID × UInt64)}
    {totalSupply : AmountMap} (allowed : (checkRewards height amounts totalSupply).1 = true)
    {asset : AssetID} {amount : UInt64} (listed : (asset, amount) ∈ amounts) :
    (totalSupply.getD asset 0 + amount).toNat = (totalSupply.getD asset 0).toNat + amount.toNat ∧
      totalSupply.getD asset 0 + amount ≤ AssetSupply.getMaxSupply asset := by
  induction amounts generalizing totalSupply with
  | nil => contradiction
  | cons entry rest ih =>
      obtain ⟨other, otherAmount⟩ := entry
      have touched (asset : AssetID) :
          (totalSupply.insertIfNew other 0).getD asset 0 = totalSupply.getD asset 0 :=
        insertIfNew_zero_getD totalSupply other asset
      rw [checkRewards] at allowed
      split at allowed
      · contradiction
      · dsimp only at allowed
        split at allowed
        · contradiction
        · rename_i noOverflow
          split at allowed
          · contradiction
          · rename_i belowCap
            rcases List.mem_cons.mp listed with here | later
            · cases here
              rw [touched] at noOverflow belowCap
              have wraps := UInt64.toNat_add (totalSupply.getD asset 0) amount
              have supplySmall := (totalSupply.getD asset 0).toNat_lt
              have amountSmall := amount.toNat_lt
              rw [UInt64.lt_iff_toNat_lt] at noOverflow
              exact ⟨by omega, UInt64.not_lt.mp belowCap⟩
            · have bounds := ih allowed later
              rwa [touched] at bounds

/-- What the reward checks promise about the supply after the block. -/
theorem supply_after_rewards {height : UInt32} {coinbase : Transaction} {totalSupply : AmountMap}
    (isCoinbase : coinbase.isCoinbase = true)
    (allowed : (checkRewards height (AmountMap.sum (coinbase.outputs.map TxOutput.value)).toList
      totalSupply).1 = true) {asset : AssetID}
    (capped : totalSupply.getD asset 0 ≤ AssetSupply.getMaxSupply asset)
    (exactOut : paidOut asset coinbase < 2 ^ 64) :
    ((updateSupply totalSupply coinbase true).getD asset 0).toNat =
        (totalSupply.getD asset 0).toNat + paidOut asset coinbase ∧
      (updateSupply totalSupply coinbase true).getD asset 0 ≤ AssetSupply.getMaxSupply asset := by
  have paid : ((AmountMap.sum (coinbase.outputs.map TxOutput.value)).getD asset 0).toNat =
      paidOut asset coinbase := AmountMap.sum_toNat_of_lt exactOut
  unfold updateSupply
  rw [isCoinbase]
  simp only [Bool.not_true, Bool.false_eq_true, if_false, if_true, getD_adjustAll]
  cases listed : (AmountMap.sum (coinbase.outputs.map TxOutput.value))[asset]? with
  | none =>
      rw [Std.ExtTreeMap.getD_eq_getD_getElem?, listed] at paid
      exact ⟨by rw [← paid]; rfl, capped⟩
  | some amount =>
      rw [Std.ExtTreeMap.getD_eq_getD_getElem?, listed] at paid
      obtain ⟨noWrap, cap⟩ := checkRewards_bounds allowed
        (Std.ExtTreeMap.mem_toList_iff_getElem?_eq_some.mpr listed)
      exact ⟨by rw [noWrap, ← paid]; rfl, cap⟩

/-- A sum of outputs of one asset wraps at 64 bits in none of the transactions. -/
def NoOutputWraps (block : Block) : Prop :=
  ∀ tx ∈ block.transactions, ∀ asset ∈ AssetID.native, paidOut asset tx < 2 ^ 64

theorem sound_connected {chain after : Chain} {block : Block} {coinbase : Transaction}
    {rest : List Transaction} {undos : List (List Coin)} {utxoSet : UTXOSet}
    (sound : chain.Sound) (checked : chain.passesChecks block = true)
    (listed : block.transactions = coinbase :: rest)
    (connects : Connects (chain.height + 1) (chain.withCoinbase coinbase) rest undos utxoSet)
    (connected : Connected chain block coinbase utxoSet after) (exactOut : NoOutputWraps block) :
    after.Sound := by
  have valid := (Bool.and_eq_true_iff.mp checked).1
  rw [passesChecks_cons valid listed] at checked
  obtain ⟨other, others, sameList, isCoinbase, ordinary⟩ := Block.isValid_shape valid
  rw [listed] at sameList
  cases sameList
  obtain ⟨_, txsValid, _⟩ := Block.isValid_iff.mp valid
  rw [listed] at txsValid
  obtain ⟨_, restValid⟩ := List.forall_mem_cons.mp txsValid
  intro asset native
  obtain ⟨covered, capped⟩ := sound asset native
  rw [NoOutputWraps, listed] at exactOut
  obtain ⟨coinbaseExact, restExact⟩ := List.forall_mem_cons.mp exactOut
  obtain ⟨supply, cap⟩ := supply_after_rewards isCoinbase checked capped (coinbaseExact asset native)
  have withCoinbase := assetTotal_addOutputs_le asset chain.utxoSet coinbase (chain.height + 1) true
  have newSupplySmall := ((updateSupply chain.totalSupply coinbase true).getD asset 0).toNat_lt
  have unchangedSupply : (chain.totalSupply.getD asset 0).toNat = (chain.getTotalSupply asset).toNat :=
    rfl
  have distinct : ∀ tx ∈ rest, tx.prevouts.Nodup := fun tx member =>
    Transaction.isValid_prevouts_nodup (restValid tx member) (ordinary tx member)
  have bounded : assetTotal asset (chain.withCoinbase coinbase) < 2 ^ 64 := by
    rw [Chain.withCoinbase]
    omega
  have kept := connects.assetTotal_le ordinary distinct bounded fun tx member =>
    restExact tx member asset native
  obtain ⟨utxoAfter, _, _, _, supplyAfter⟩ := connected
  rw [supplyAfter, utxoAfter]
  rw [Chain.withCoinbase] at kept
  exact ⟨by omega, cap⟩

end Chain

end Parthenon.Chainstate
