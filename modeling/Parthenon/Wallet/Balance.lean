import Parthenon.Library.Sums
import Parthenon.Wallet.SignedTransactions
import Parthenon.Wallet.Tracking

namespace Parthenon.Wallet

open Library Crypto Primitives Chainstate Validation

/-! # Balanced transactions

What a created transaction takes from the wallet against what it pays.  The
requested total is added up on 64 bits, and coins are selected for one asset only.
-/

variable {secp : Secp256k1}

def values (coins : List WalletUTXO) : List AssetAmount := coins.map (·.output.value)

def unspentTotal (wallet : Wallet) (asset : AssetID) : Nat :=
  AmountMap.exactSum asset (values (wallet.listUTXOs false))

/-- The inputs of the asset are its outputs with the fee, those of another asset
cover its outputs, and the validator finds nothing made from thin air. -/
structure Balanced (coins : List WalletUTXO) (tx : Transaction) (asset : AssetID)
    (feeAmount : UInt64) : Prop where
  chosen : AmountMap.exactSum asset (values coins) =
    AmountMap.exactSum asset (tx.outputs.map TxOutput.value) + feeAmount.toNat
  others : ∀ other, other ≠ asset → AmountMap.exactSum other (tx.outputs.map TxOutput.value) ≤
    AmountMap.exactSum other (values coins)
  conserves : ∀ utxoSet height, HoldsInputs utxoSet coins →
    TransactionValidator.validateAgainstUTXO tx utxoSet height ≠
      .error ⟨.txAssetConservation, "Transaction creates assets from thin air"⟩

/-! ## Selection -/

theorem selectFrom_spec {asset : AssetID} {amount total : UInt64}
    {utxos selected : List WalletUTXO}
    (found : selectFrom asset amount utxos selected total ≠ []) :
    ∃ picked, selectFrom asset amount utxos selected total = selected ++ picked ∧
      picked.Sublist (utxos.filter fun utxo => !utxo.isSpent && utxo.output.value.asset = asset) ∧
      amount ≤ picked.foldl (fun total utxo => total + utxo.output.value.amount) total := by
  induction utxos generalizing selected total with
  | nil => exact absurd rfl found
  | cons utxo rest ih =>
      rw [selectFrom] at found ⊢
      by_cases usable : (!utxo.isSpent && utxo.output.value.asset = asset) = true
      · rw [if_pos usable] at found ⊢
        rw [List.filter_cons, if_pos usable]
        dsimp only at found ⊢
        by_cases enough : total + utxo.output.value.amount ≥ amount
        · rw [if_pos enough]
          exact ⟨[utxo], rfl, (List.nil_sublist _).cons_cons utxo, enough⟩
        · rw [if_neg enough] at found ⊢
          obtain ⟨picked, taken, listed, reached⟩ := ih found
          refine ⟨utxo :: picked, ?_, listed.cons_cons utxo, reached⟩
          rw [taken, List.append_assoc, List.singleton_append]
      · rw [if_neg usable] at found ⊢
        rw [List.filter_cons, if_neg usable]
        exact ih found

theorem selectCoins_spec {wallet : Wallet} {asset : AssetID} {amount : UInt64}
    (found : wallet.selectCoins asset amount ≠ []) :
    (wallet.selectCoins asset amount).Sublist (wallet.listUTXOs false) ∧
      (∀ coin ∈ wallet.selectCoins asset amount, coin.output.value.asset = asset) ∧
      amount ≤ (wallet.selectCoins asset amount).foldl
        (fun total utxo => total + utxo.output.value.amount) 0 := by
  obtain ⟨picked, taken, listed, reached⟩ := selectFrom_spec found
  rw [selectCoins, taken, List.nil_append]
  have unspent : wallet.listUTXOs false = wallet.utxos.filter (!·.isSpent) := rfl
  refine ⟨?_, ?_, reached⟩
  · rw [unspent]
    rw [← List.filter_filter] at listed
    refine listed.trans ?_
    rw [List.filter_comm]
    exact List.filter_sublist
  · intro coin member
    have usable := (List.mem_filter.mp (listed.subset member)).2
    simp only [Bool.and_eq_true, decide_eq_true_eq] at usable
    exact usable.2

/-! ## Sums -/

theorem exactSum_append (asset : AssetID) (left right : List AssetAmount) :
    AmountMap.exactSum asset (left ++ right) =
      AmountMap.exactSum asset left + AmountMap.exactSum asset right := by
  simp [AmountMap.exactSum]

theorem exactSum_sublist (asset : AssetID) {some all : List WalletUTXO} (listed : some.Sublist all) :
    AmountMap.exactSum asset (values some) ≤ AmountMap.exactSum asset (values all) :=
  ((listed.map _).map _).sum_le_sum fun _ _ => Nat.zero_le _

theorem exactSum_other {asset other : AssetID} (differ : other ≠ asset) {coins : List WalletUTXO}
    (ofAsset : ∀ coin ∈ coins, coin.output.value.asset = asset) :
    AmountMap.exactSum other (values coins) = 0 := by
  rw [AmountMap.exactSum, List.sum_eq_zero_iff]
  intro amount member
  simp only [values, List.map_map, List.mem_map, Function.comp_apply] at member
  obtain ⟨coin, listed, rfl⟩ := member
  rw [if_neg]
  rw [ofAsset coin listed]
  exact fun same => differ same.symm

theorem totalOut_toNat (outputs : List TxOutput) (asset : AssetID) (feeAmount : UInt64) :
    (totalOut outputs asset feeAmount).toNat =
      (feeAmount.toNat + AmountMap.exactSum asset (outputs.map TxOutput.value)) % 2 ^ 64 := by
  rw [totalOut, AmountMap.exactSum, List.map_map]
  apply toNat_foldl_wrapping
  intro total output
  by_cases same : output.value.asset = asset
  · simp [same]
  · have small := total.toNat_lt
    simp only [same, if_false, Function.comp_apply, Nat.add_zero]
    omega

theorem totalIn_toNat {asset : AssetID} {coins : List WalletUTXO}
    (ofAsset : ∀ coin ∈ coins, coin.output.value.asset = asset) :
    (coins.foldl (fun (total : UInt64) utxo => total + utxo.output.value.amount) 0).toNat =
      AmountMap.exactSum asset (values coins) % 2 ^ 64 := by
  have added := toNat_foldl_wrapping (fun total (utxo : WalletUTXO) => total + utxo.output.value.amount)
    (fun utxo : WalletUTXO => utxo.output.value.amount.toNat) (fun _ _ => UInt64.toNat_add _ _) coins 0
  rw [added, UInt64.toNat_zero, Nat.zero_add, AmountMap.exactSum, values, List.map_map]
  congr 2
  apply List.map_congr_left
  intro coin member
  rw [Function.comp_apply, if_pos (ofAsset coin member)]

/-! ## Creation -/

theorem signInput_unsigned {wallet after : Wallet} {index : Nat} {utxo : WalletUTXO}
    {tx signed : Transaction} (done : signInput secp index utxo tx wallet = (some signed, after)) :
    signed.unsigned = tx.unsigned := by
  unfold signInput at done
  split at done
  · cases done
  · cases found : wallet.addresses.find? (·.pubkey = utxo.output.pubkeyScript) with
    | none => simp [found] at done
    | some address =>
        simp only [found] at done
        cases produced : Schnorr.sign secp (wallet.keyAt address.index).1 (tx.getSignatureHash index)
            none with
        | none => simp [produced] at done
        | some signature =>
            simp only [produced] at done
            cases done
            exact Transaction.unsigned_setScript tx index _

theorem signFrom_unsigned {utxos : List WalletUTXO} {wallet after : Wallet} {index : Nat}
    {tx final : Transaction} (done : signFrom secp index utxos tx wallet = (some final, after)) :
    final.unsigned = tx.unsigned := by
  induction utxos generalizing index tx wallet with
  | nil =>
      cases done
      rfl
  | cons utxo rest ih =>
      rw [signFrom] at done
      cases signed : signInput secp index utxo tx wallet with
      | mk result cached =>
          rw [signed] at done
          cases result with
          | none => cases done
          | some advanced => exact (ih done).trans (signInput_unsigned signed)

/-- The change is the difference of the totals, paid in the asset. -/
theorem changeOutput_amounts {wallet after : Wallet} {asset : AssetID} {totalIn totalOut : UInt64}
    {change : List TxOutput}
    (made : changeOutput secp wallet asset totalIn totalOut = (.ok change, after)) :
    change.map TxOutput.value =
      if totalIn > totalOut then [{ asset, amount := totalIn - totalOut }] else [] := by
  unfold changeOutput at made
  split at made
  · rename_i more
    rw [if_pos more]
    cases generated : wallet.generateAddress secp "change" with
    | mk result keyed =>
        cases result with
        | error reason => simp [generated] at made
        | ok address =>
            simp only [generated] at made
            cases made
            rfl
  · rename_i notMore
    rw [if_neg notMore]
    cases made
    rfl

/-- The total of the coins that are selected for a request. -/
def selectedTotal (wallet : Wallet) (outputs : List TxOutput) (asset : AssetID) (feeAmount : UInt64) :
    UInt64 :=
  (wallet.selectCoins asset (totalOut outputs asset feeAmount)).foldl
    (fun total utxo => total + utxo.output.value.amount) 0

theorem createTransaction_spec {wallet after : Wallet} {outputs : List TxOutput} {asset : AssetID}
    {feeAmount : UInt64} {tx : Transaction}
    (created : wallet.createTransaction secp outputs asset feeAmount = (.ok (some tx), after)) :
    wallet.selectCoins asset (totalOut outputs asset feeAmount) ≠ [] ∧
      tx.prevouts = (wallet.selectCoins asset (totalOut outputs asset feeAmount)).map
        WalletUTXO.outpoint ∧
      ∃ change : List TxOutput, tx.outputs = outputs ++ change ∧ change.map TxOutput.value =
        if wallet.selectedTotal outputs asset feeAmount > totalOut outputs asset feeAmount then
          [{ asset, amount := wallet.selectedTotal outputs asset feeAmount -
              totalOut outputs asset feeAmount }]
        else [] := by
  obtain ⟨nonempty, change, funded, made, result⟩ := createTransaction_cases created
  have same := signFrom_unsigned result
  have prevouts := congrArg Transaction.prevouts same
  have paid := congrArg Transaction.outputs same
  simp only [Transaction.prevouts, Transaction.unsigned, List.map_map] at prevouts
  exact ⟨nonempty, prevouts, change, paid, changeOutput_amounts made⟩

/-- The requested outputs and the fee fit in 64 bits, and nothing is asked for in
another asset. -/
def Payable (outputs : List TxOutput) (asset : AssetID) (feeAmount : UInt64) : Prop :=
  feeAmount.toNat + AmountMap.exactSum asset (outputs.map TxOutput.value) < 2 ^ 64 ∧
    ∀ output ∈ outputs, output.value.asset ≠ asset → output.value.amount = 0

theorem exactSum_eq_zero_iff {asset : AssetID} {outputs : List TxOutput} :
    AmountMap.exactSum asset (outputs.map TxOutput.value) = 0 ↔
      ∀ output ∈ outputs, output.value.asset = asset → output.value.amount = 0 := by
  rw [AmountMap.exactSum, List.sum_eq_zero_iff]
  simp only [List.map_map, List.mem_map, Function.comp_apply, forall_exists_index, and_imp,
    forall_apply_eq_imp_iff₂]
  constructor
  · intro zeros output member same
    have zero := zeros output member
    rw [if_pos same] at zero
    exact UInt64.toNat_inj.mp zero
  · intro zeros output member
    split
    · rename_i same
      rw [zeros output member same]
      rfl
    · rfl

theorem spentCoins_outputs {utxoSet : UTXOSet} {height : UInt32} {coins : List WalletUTXO}
    {spent : List Coin} (holds : HoldsInputs utxoSet coins)
    (found : TransactionValidator.spentCoins utxoSet height (coins.map WalletUTXO.outpoint) =
      .ok spent) : spent.map Coin.output = coins.map WalletUTXO.output := by
  induction coins generalizing spent with
  | nil =>
      cases found
      rfl
  | cons coin rest ih =>
      obtain ⟨stored, inSet, same⟩ := holds coin (List.mem_cons_self ..)
      rw [List.map_cons, TransactionValidator.spentCoins, inSet] at found
      cases spendable : stored.isSpendable height with
      | false => simp [spendable] at found
      | true =>
          cases later : TransactionValidator.spentCoins utxoSet height
              (rest.map WalletUTXO.outpoint) with
          | error reason => simp [spendable, later, Except.map] at found
          | ok others =>
              simp only [spendable, later, Except.map, Bool.not_true, Bool.false_eq_true, if_false,
                Except.ok.injEq] at found
              subst found
              have sameLater := ih (fun coin member => holds coin (List.mem_cons_of_mem _ member)) later
              rw [List.map_cons, List.map_cons, same, sameLater]

theorem spentCoins_error {utxoSet : UTXOSet} {height : UInt32} {outpoints : List OutPoint}
    {reason : ValidationError}
    (refused : TransactionValidator.spentCoins utxoSet height outpoints = .error reason) :
    reason.type ≠ .txAssetConservation := by
  induction outpoints with
  | nil => cases refused
  | cons outpoint rest ih =>
      rw [TransactionValidator.spentCoins] at refused
      split at refused
      · cases refused
        decide
      · split at refused
        · cases refused
          decide
        · cases later : TransactionValidator.spentCoins utxoSet height rest with
          | error reason =>
              rw [later] at refused
              cases refused
              exact ih later
          | ok others =>
              rw [later] at refused
              cases refused

theorem conserves_of_covered {tx : Transaction} {coins : List WalletUTXO}
    (spends : tx.prevouts = coins.map WalletUTXO.outpoint)
    (small : ∀ asset, AmountMap.exactSum asset (values coins) < 2 ^ 64)
    (covered : ∀ asset, AmountMap.exactSum asset (tx.outputs.map TxOutput.value) ≤
      AmountMap.exactSum asset (values coins))
    {utxoSet : UTXOSet} (height : UInt32) (holds : HoldsInputs utxoSet coins) :
    TransactionValidator.validateAgainstUTXO tx utxoSet height ≠
      .error ⟨.txAssetConservation, "Transaction creates assets from thin air"⟩ := by
  intro refused
  rw [TransactionValidator.validateAgainstUTXO, spends] at refused
  split at refused
  · cases refused
  · cases found : TransactionValidator.spentCoins utxoSet height (coins.map WalletUTXO.outpoint) with
    | error reason =>
        simp only [found, Except.error.injEq] at refused
        exact spentCoins_error found (congrArg ValidationError.type refused)
    | ok spent =>
        have outputs := spentCoins_outputs holds found
        have amounts : spent.map (·.output.value) = values coins := by
          have mapped := congrArg (List.map TxOutput.value) outputs
          rw [List.map_map, List.map_map] at mapped
          exact mapped
        have passes : (AmountMap.sum (spent.map (·.output.value))).covers
            (AmountMap.sum (tx.outputs.map TxOutput.value)) = true := by
          rw [amounts, AmountMap.covers_iff]
          intro asset
          rw [UInt64.le_iff_toNat_le, AmountMap.sum_toNat_of_lt (small asset),
            AmountMap.sum_toNat_of_lt (Nat.lt_of_le_of_lt (covered asset) (small asset))]
          exact covered asset
        simp [found, passes] at refused

/-- What the outputs are worth: the requested ones, and the change in the asset. -/
theorem createTransaction_paid {wallet after : Wallet} {outputs : List TxOutput}
    {asset : AssetID} {feeAmount : UInt64} {tx : Transaction}
    (small : wallet.unspentTotal asset < 2 ^ 64)
    (created : wallet.createTransaction secp outputs asset feeAmount = (.ok (some tx), after)) :
    AmountMap.exactSum asset (tx.outputs.map TxOutput.value) +
        (totalOut outputs asset feeAmount).toNat =
      AmountMap.exactSum asset (outputs.map TxOutput.value) +
        AmountMap.exactSum asset (values (wallet.selectCoins asset (totalOut outputs asset feeAmount))) ∧
    ∀ other, other ≠ asset → AmountMap.exactSum other (tx.outputs.map TxOutput.value) =
      AmountMap.exactSum other (outputs.map TxOutput.value) := by
  obtain ⟨nonempty, spends, change, paid, amounts⟩ := createTransaction_spec created
  obtain ⟨listed, ofAsset, enough⟩ := selectCoins_spec nonempty
  have totalIn : (wallet.selectedTotal outputs asset feeAmount).toNat =
      AmountMap.exactSum asset (values (wallet.selectCoins asset (totalOut outputs asset feeAmount))) :=
    (totalIn_toNat ofAsset).trans
      (Nat.mod_eq_of_lt (Nat.lt_of_le_of_lt (exactSum_sublist asset listed) small))
  have le : totalOut outputs asset feeAmount ≤ wallet.selectedTotal outputs asset feeAmount := enough
  have reached := UInt64.le_iff_toNat_le.mp le
  rw [paid, List.map_append, amounts]
  constructor
  · rw [exactSum_append, ← totalIn]
    split
    · rw [AmountMap.exactSum_cons, if_pos rfl, AmountMap.exactSum_nil, toNat_sub_of_le le]
      omega
    · rename_i notMore
      rw [gt_iff_lt, UInt64.lt_iff_toNat_lt] at notMore
      rw [AmountMap.exactSum_nil]
      omega
  · intro other differ
    rw [exactSum_append]
    split
    · rw [AmountMap.exactSum_cons, if_neg (Ne.symm differ), AmountMap.exactSum_nil, Nat.zero_add,
        Nat.add_zero]
    · rw [AmountMap.exactSum_nil, Nat.add_zero]

/-- A created transaction is balanced exactly when the request is payable. -/
theorem createTransaction_balanced_iff {wallet after : Wallet} {outputs : List TxOutput}
    {asset : AssetID} {feeAmount : UInt64} {tx : Transaction}
    (fits : ∀ asset, wallet.unspentTotal asset < 2 ^ 64)
    (created : wallet.createTransaction secp outputs asset feeAmount = (.ok (some tx), after)) :
    let coins := wallet.selectCoins asset (totalOut outputs asset feeAmount)
    tx.prevouts = coins.map WalletUTXO.outpoint ∧ coins.Sublist (wallet.listUTXOs false) ∧
      (Balanced coins tx asset feeAmount ↔ Payable outputs asset feeAmount) := by
  intro coins
  obtain ⟨nonempty, spends, change, paid, amounts⟩ := createTransaction_spec created
  obtain ⟨listed, ofAsset, enough⟩ := selectCoins_spec nonempty
  have small (other : AssetID) : AmountMap.exactSum other (values coins) < 2 ^ 64 :=
    Nat.lt_of_le_of_lt (exactSum_sublist other listed) (fits other)
  obtain ⟨paidChosen, paidOther⟩ := createTransaction_paid (fits asset) created
  change _ = _ + AmountMap.exactSum asset (values coins) at paidChosen
  have requested := totalOut_toNat outputs asset feeAmount
  refine ⟨spends, listed, ?_⟩
  constructor
  · intro balanced
    have chosen := balanced.chosen
    refine ⟨by omega, ?_⟩
    intro output member differ
    have covered := balanced.others output.value.asset differ
    rw [exactSum_other differ ofAsset, paidOther _ differ] at covered
    exact exactSum_eq_zero_iff.mp (Nat.le_zero.mp covered) output member rfl
  · intro fits
    obtain ⟨whole, nothingElse⟩ := fits
    rw [Nat.mod_eq_of_lt whole] at requested
    have chosen : AmountMap.exactSum asset (values coins) =
        AmountMap.exactSum asset (tx.outputs.map TxOutput.value) + feeAmount.toNat := by omega
    have others (other : AssetID) (differ : other ≠ asset) :
        AmountMap.exactSum other (tx.outputs.map TxOutput.value) ≤
          AmountMap.exactSum other (values coins) := by
      have nothing : AmountMap.exactSum other (outputs.map TxOutput.value) = 0 :=
        exactSum_eq_zero_iff.mpr fun output member same =>
          nothingElse output member (by rwa [same])
      rw [paidOther other differ, nothing]
      exact Nat.zero_le _
    refine ⟨chosen, others, ?_⟩
    intro utxoSet height holds
    refine conserves_of_covered spends small ?_ height holds
    intro other
    by_cases same : other = asset
    · rw [same, chosen]
      exact Nat.le_add_right _ _
    · exact others other same

/-! A request whose total wraps. -/
namespace WrappingRequest

open OneAddress

/-- Everything but one unit, with a fee of one. -/
def outputs : List TxOutput := [Sample.output 0xFFFFFFFFFFFFFFFF ⟨[1], ByteVector.one_fits⟩]

theorem fits (asset : AssetID) : wallet.unspentTotal asset < 2 ^ 64 := by
  have one : values (wallet.listUTXOs false) = [funding.value] := by decide +kernel
  rw [unspentTotal, one, AmountMap.exactSum_cons, AmountMap.exactSum_nil, Nat.add_zero]
  have small := funding.value.amount.toNat_lt
  split <;> omega

theorem created : ∃ tx after, wallet.createTransaction library outputs .talanton 1 =
    (.ok (some tx), after) := by
  have signed : ((wallet.createTransaction library outputs .talanton 1).1.toOption.bind id).isSome =
      true := by decide +kernel
  cases result : wallet.createTransaction library outputs .talanton 1 with
  | mk answer after =>
      rw [result] at signed
      match answer with
      | .ok (some tx) => exact ⟨tx, after, rfl⟩

end WrappingRequest

theorem createTransaction_balanced_oneAddress :
    Balanced (OneAddress.wallet.selectCoins .talanton (totalOut OneAddress.outputs .talanton 0))
        OneAddress.signed .talanton 0 ↔ Payable OneAddress.outputs .talanton 0 := by
  have created : OneAddress.wallet.createTransaction OneAddress.library OneAddress.outputs
      .talanton 0 = (.ok (some OneAddress.signed), (OneAddress.wallet.createTransaction
        OneAddress.library OneAddress.outputs .talanton 0).2) := by
    rw [← OneAddress.wallet_signs]
  obtain ⟨_, _, law⟩ := createTransaction_balanced_iff WrappingRequest.fits created
  exact law

/-- The one coin of 1000 is spent into outputs that are worth more than `2 ^ 64`. -/
theorem wrapping_request_unbalanced :
    (∀ asset, OneAddress.wallet.unspentTotal asset < 2 ^ 64) ∧
    ∃ tx after, OneAddress.wallet.createTransaction OneAddress.library WrappingRequest.outputs
        .talanton 1 = (.ok (some tx), after) ∧
      ¬ Balanced (OneAddress.wallet.selectCoins .talanton
        (totalOut WrappingRequest.outputs .talanton 1)) tx .talanton 1 := by
  obtain ⟨tx, after, created⟩ := WrappingRequest.created
  refine ⟨WrappingRequest.fits, tx, after, created, ?_⟩
  intro balanced
  obtain ⟨_, _, change, paid, _⟩ := createTransaction_spec created
  have chosen := balanced.chosen
  have spent : AmountMap.exactSum .talanton (values (OneAddress.wallet.selectCoins .talanton
      (totalOut WrappingRequest.outputs .talanton 1))) = 1000 := by decide +kernel
  have requested : AmountMap.exactSum .talanton (WrappingRequest.outputs.map TxOutput.value) =
      2 ^ 64 - 1 := by decide +kernel
  rw [spent, paid, List.map_append, exactSum_append, requested] at chosen
  omega

end Parthenon.Wallet
