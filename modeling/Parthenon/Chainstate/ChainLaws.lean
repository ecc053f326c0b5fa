import Parthenon.Chainstate.Chain

namespace Parthenon.Chainstate

open Parthenon.Library Parthenon.Crypto Parthenon.Primitives Parthenon.Consensus

/-! # What a block does to the chain

`ConnectBlock` has three outcomes: it refuses the block before the transaction
loop, stops at a transaction that does not validate, or connects the block.  In
each of them the UTXO set changes by the writes of the transactions processed.
-/

/-- The writes of an ordinary transaction. -/
def transactionUpdates (height : UInt32) (tx : Transaction) : List CoinUpdate :=
  spendUpdates tx ++ createUpdates tx height false

/-- The writes of the transactions of a block, the first one being its coinbase. -/
def blockUpdates (height : UInt32) : List Transaction → List CoinUpdate
  | [] => []
  | coinbase :: rest =>
      createUpdates coinbase height true ++ rest.flatMap (transactionUpdates height)

namespace Chain

/-- The chain as its observers see it: an asset without a supply entry reads as zero. -/
def SameState (left right : Chain) : Prop :=
  left.utxoSet = right.utxoSet ∧ left.height = right.height ∧ left.tipHash = right.tipHash ∧
    left.blockIndex = right.blockIndex ∧ ∀ asset, left.getTotalSupply asset = right.getTotalSupply asset

theorem inputCoins_eq_some {set : UTXOSet} {height : UInt32} {outpoints : List OutPoint}
    {coins : List Coin} :
    inputCoins set height outpoints = some coins ↔
      List.Forall₂ (fun outpoint coin => set.getCoin outpoint = some coin ∧
        coin.isSpendable height = true) outpoints coins := by
  induction outpoints generalizing coins with
  | nil =>
      simp only [inputCoins, Option.some.injEq, List.forall₂_nil_left_iff]
      exact eq_comm
  | cons outpoint rest ih =>
      rw [List.forall₂_cons_left_iff]
      simp only [inputCoins]
      cases found : set.getCoin outpoint with
      | none => simp
      | some coin =>
          simp only [Option.some.injEq]
          by_cases spendable : coin.isSpendable height = true
          · rw [if_pos spendable]
            simp only [Option.map_eq_some_iff, ih]
            constructor
            · rintro ⟨others, each, rfl⟩
              exact ⟨coin, others, ⟨rfl, spendable⟩, each, rfl⟩
            · rintro ⟨_, others, ⟨rfl, _⟩, each, rfl⟩
              exact ⟨others, each, rfl⟩
          · rw [if_neg spendable]
            simp only [reduceCtorEq, false_iff]
            rintro ⟨_, _, ⟨rfl, isSpendable⟩, _, _⟩
            exact spendable isSpendable

theorem inputCoins_length {set : UTXOSet} {height : UInt32} {outpoints : List OutPoint}
    {coins : List Coin} (found : inputCoins set height outpoints = some coins) :
    outpoints.length = coins.length :=
  (inputCoins_eq_some.mp found).length_eq

/-- What a valid ordinary transaction satisfies. -/
theorem validateTransaction_eq_some {set : UTXOSet} {tx : Transaction} {height : UInt32}
    {coins : List Coin} (ordinary : tx.isCoinbase = false) :
    validateTransaction set tx height = some coins ↔
      inputCoins set height tx.prevouts = some coins ∧
        (AmountMap.sum (coins.map (·.output.value))).covers
          (AmountMap.sum (tx.outputs.map TxOutput.value)) = true := by
  rw [validateTransaction, ordinary]
  cases found : inputCoins set height tx.prevouts with
  | none => simp
  | some others =>
      simp only [Bool.false_eq_true, if_false, Option.some.injEq]
      constructor
      · intro accepted
        split at accepted
        · rename_i covered
          cases accepted
          exact ⟨rfl, covered⟩
        · contradiction
      · rintro ⟨rfl, covered⟩
        rw [if_pos covered]

/-- Transactions processed one after another, each valid in the set it meets,
with the coins they spent. -/
inductive Connects (height : UInt32) : UTXOSet → List Transaction → List (List Coin) → UTXOSet → Prop
  | nil : Connects height utxos [] [] utxos
  | cons (valid : validateTransaction utxos tx height = some coins)
      (tail : Connects height ((utxos.spendInputs tx).addOutputs tx height false) rest undos after) :
      Connects height utxos (tx :: rest) (coins :: undos) after

theorem processed_eq (set : UTXOSet) (tx : Transaction) (height : UInt32) :
    (set.spendInputs tx).addOutputs tx height false =
      applyUpdates set (transactionUpdates height tx) := by
  rw [UTXOSet.addOutputs_eq, UTXOSet.spendInputs_eq, transactionUpdates, applyUpdates_append]

theorem Connects.updates {height : UInt32} {set after : UTXOSet} {txs : List Transaction}
    {undos : List (List Coin)} (connects : Connects height set txs undos after) :
    after = applyUpdates set (txs.flatMap (transactionUpdates height)) := by
  induction connects with
  | nil => rfl
  | cons _ _ ih =>
      rw [ih, processed_eq, List.flatMap_cons, applyUpdates_append]

/-- The loop processes the transactions up to the first one that is not valid. -/
theorem connectTransactions_cases (height : UInt32) (txs : List Transaction) (set : UTXOSet)
    (undo : BlockUndo) :
    (∃ undos after, Connects height set txs undos after ∧
      connectTransactions height txs set undo = (true, after, ⟨undo.txUndo ++ undos⟩)) ∨
    (∃ before failing later undos after, txs = before ++ failing :: later ∧
      Connects height set before undos after ∧
      validateTransaction after failing height = none ∧
      connectTransactions height txs set undo = (false, after, ⟨undo.txUndo ++ undos⟩)) := by
  induction txs generalizing set undo with
  | nil =>
      refine .inl ⟨[], set, .nil, ?_⟩
      rw [connectTransactions, List.append_nil]
  | cons tx rest ih =>
      rw [connectTransactions]
      cases valid : validateTransaction set tx height with
      | none =>
          refine .inr ⟨[], tx, rest, [], set, rfl, .nil, valid, ?_⟩
          rw [List.append_nil]
      | some coins =>
          have extended (undos : List (List Coin)) :
              (undo.addTxUndo coins).txUndo ++ undos = undo.txUndo ++ coins :: undos := by
            simp [BlockUndo.addTxUndo]
          dsimp only
          rcases ih ((set.spendInputs tx).addOutputs tx height false) (undo.addTxUndo coins) with
            ⟨undos, after, connects, result⟩ |
            ⟨before, failing, later, undos, after, split, connects, invalid, result⟩
          · refine .inl ⟨coins :: undos, after, .cons valid connects, ?_⟩
            rw [result, extended]
          · refine .inr ⟨tx :: before, failing, later, coins :: undos, after, ?_, .cons valid connects,
              invalid, ?_⟩
            · rw [split, List.cons_append]
            · rw [result, extended]

/-- The checks `ConnectBlock` makes before it touches the UTXO set. -/
def passesChecks (chain : Chain) (block : Block) : Bool :=
  block.isValid &&
    match block.transactions with
    | [] => false
    | coinbase :: _ =>
        (checkRewards (chain.height + 1)
          (AmountMap.sum (coinbase.outputs.map TxOutput.value)).toList chain.totalSupply).1

theorem insertIfNew_zero_getD (totalSupply : AmountMap) (touched asset : AssetID) :
    (totalSupply.insertIfNew touched 0).getD asset 0 = totalSupply.getD asset 0 := by
  rw [Std.ExtTreeMap.getD_insertIfNew]
  split
  · rename_i absent
    obtain ⟨same, missing⟩ := absent
    obtain rfl := Std.LawfulEqCmp.compare_eq_iff_eq.mp same
    rw [Std.ExtTreeMap.getD_eq_fallback missing]
  · rfl

theorem checkRewards_allowed {height : UInt32} {amounts : List (AssetID × UInt64)}
    {totalSupply : AmountMap} (passed : (checkRewards height amounts totalSupply).1 = true) :
    ∀ reward ∈ amounts, Issuance.isValidBlockReward height.toUInt64 reward.1 reward.2 = true := by
  induction amounts generalizing totalSupply with
  | nil => exact nofun
  | cons entry rest ih =>
      obtain ⟨asset, amount⟩ := entry
      rw [checkRewards] at passed
      cases allowed : Issuance.isValidBlockReward height.toUInt64 asset amount with
      | false => simp [allowed] at passed
      | true =>
          simp only [allowed, Bool.not_true, Bool.false_eq_true, if_false] at passed
          split at passed
          · cases passed
          · split at passed
            · cases passed
            · exact List.forall_mem_cons.mpr ⟨allowed, ih passed⟩

/-- Reading supplies does not change them. -/
theorem checkRewards_getD (height : UInt32) (amounts : List (AssetID × UInt64))
    (totalSupply : AmountMap) (asset : AssetID) :
    (checkRewards height amounts totalSupply).2.getD asset 0 = totalSupply.getD asset 0 := by
  induction amounts generalizing totalSupply with
  | nil => rfl
  | cons entry rest ih =>
      obtain ⟨other, amount⟩ := entry
      have touched := insertIfNew_zero_getD totalSupply other asset
      rw [checkRewards]
      split
      · rfl
      · dsimp only
        split
        · exact touched
        · split
          · exact touched
          · rw [ih, touched]

theorem passesChecks_eq_false_of_invalid {chain : Chain} {block : Block}
    (invalid : block.isValid = false) : chain.passesChecks block = false := by
  rw [passesChecks, invalid, Bool.false_and]

theorem passesChecks_cons {chain : Chain} {block : Block} {coinbase : Transaction}
    {rest : List Transaction} (valid : block.isValid = true)
    (listed : block.transactions = coinbase :: rest) :
    chain.passesChecks block = (checkRewards (chain.height + 1)
      (AmountMap.sum (coinbase.outputs.map TxOutput.value)).toList chain.totalSupply).1 := by
  rw [passesChecks, valid, listed, Bool.true_and]

/-- The set the transactions past the coinbase are processed on. -/
def withCoinbase (chain : Chain) (coinbase : Transaction) : UTXOSet :=
  chain.utxoSet.addOutputs coinbase (chain.height + 1) true

/-- The chain after a block that was connected, up to the final UTXO set. -/
def Connected (chain : Chain) (block : Block) (coinbase : Transaction) (utxoSet : UTXOSet)
    (after : Chain) : Prop :=
  after.utxoSet = utxoSet ∧ after.height = chain.height + 1 ∧ after.tipHash = block.getHash ∧
    after.blockIndex = chain.blockIndex.insert block.getHash (.ofHeader block.header (chain.height + 1)
      (nextWork chain.blockIndex (chain.height + 1) block.header.prevBlockHash)) ∧
    ∀ asset, after.getTotalSupply asset =
      (updateSupply chain.totalSupply coinbase true).getD asset 0

theorem updateSupply_congr {left right : AmountMap}
    (same : ∀ asset, left.getD asset 0 = right.getD asset 0) (coinbase : Transaction)
    (connect : Bool) (asset : AssetID) :
    (updateSupply left coinbase connect).getD asset 0 =
      (updateSupply right coinbase connect).getD asset 0 := by
  unfold updateSupply
  split
  · exact same asset
  · cases connect with
    | true =>
        simp only [if_true, getD_adjustAll, same]
    | false =>
        simp only [Bool.false_eq_true, if_false, getD_adjustAll, same]

/-- The three outcomes of `ConnectBlock`. -/
theorem connectBlock_cases (chain : Chain) (block : Block) (undo : BlockUndo) :
    (chain.passesChecks block = false ∧ ∃ after, SameState after chain ∧
      chain.connectBlock block undo = (false, after, undo)) ∨
    (chain.passesChecks block = true ∧ ∃ coinbase before failing later undos utxoSet after,
      block.transactions = coinbase :: (before ++ failing :: later) ∧
      Connects (chain.height + 1) (chain.withCoinbase coinbase) before undos utxoSet ∧
      validateTransaction utxoSet failing (chain.height + 1) = none ∧
      SameState after { chain with utxoSet } ∧
      chain.connectBlock block undo = (false, after, ⟨undo.txUndo ++ undos⟩)) ∨
    (chain.passesChecks block = true ∧ ∃ coinbase rest undos utxoSet after,
      block.transactions = coinbase :: rest ∧
      Connects (chain.height + 1) (chain.withCoinbase coinbase) rest undos utxoSet ∧
      Connected chain block coinbase utxoSet after ∧
      chain.connectBlock block undo = (true, after, ⟨undo.txUndo ++ undos⟩)) := by
  cases valid : block.isValid with
  | false =>
      refine .inl ⟨passesChecks_eq_false_of_invalid valid, chain, ⟨rfl, rfl, rfl, rfl, fun _ => rfl⟩, ?_⟩
      rw [connectBlock, valid]
      rfl
  | true =>
      obtain ⟨coinbase, rest, listed, isCoinbase, _⟩ := Block.isValid_shape valid
      have work : Difficulty.checkProofOfWork block.getHash block.header.bits = true :=
        (Block.isValid_iff.mp valid).2.2.2
      have checks : chain.passesChecks block = _ := passesChecks_cons valid listed
      simp only [connectBlock, valid, work, listed, isCoinbase, Bool.not_true, Bool.false_eq_true,
        if_false]
      have untouched (asset : AssetID) := checkRewards_getD (chain.height + 1)
        (AmountMap.sum (coinbase.outputs.map TxOutput.value)).toList chain.totalSupply asset
      cases rewards : checkRewards (chain.height + 1)
          (AmountMap.sum (coinbase.outputs.map TxOutput.value)).toList chain.totalSupply with
      | mk allowed totalSupply =>
      rw [rewards] at checks untouched
      cases allowed with
      | false =>
          exact .inl ⟨checks, { chain with totalSupply }, ⟨rfl, rfl, rfl, rfl, untouched⟩, rfl⟩
      | true =>
          dsimp only
          rcases connectTransactions_cases (chain.height + 1) rest (chain.withCoinbase coinbase) undo
            with ⟨undos, after, connects, result⟩ |
              ⟨before, failing, later, undos, after, split, connects, invalid, result⟩
          · rw [withCoinbase] at result
            rw [result]
            refine .inr (.inr ⟨checks, coinbase, rest, undos, after, _, rfl, connects,
              ⟨rfl, rfl, rfl, rfl, ?_⟩, rfl⟩)
            exact updateSupply_congr untouched coinbase true
          · rw [withCoinbase] at result
            rw [result]
            exact .inr (.inl ⟨checks, coinbase, before, failing, later, undos, after,
              { chain with utxoSet := after, totalSupply }, by rw [split], connects, invalid,
              ⟨rfl, rfl, rfl, rfl, untouched⟩, rfl⟩)

/-- A block that is not connected moves neither the tip nor the supplies. -/
theorem connectBlock_rejected {chain after : Chain} {block : Block} {undo left : BlockUndo}
    (rejected : chain.connectBlock block undo = (false, after, left)) :
    after.height = chain.height ∧ after.tipHash = chain.tipHash ∧
      ∀ asset, after.getTotalSupply asset = chain.getTotalSupply asset := by
  rcases connectBlock_cases chain block undo with
    ⟨_, stopped, same, result⟩ |
    ⟨_, _, _, _, _, _, utxoSet, stopped, _, _, _, same, result⟩ |
    ⟨_, _, _, _, _, _, _, _, _, result⟩
  · rw [result] at rejected
    cases rejected
    obtain ⟨_, height, tipHash, _, supply⟩ := same
    exact ⟨height, tipHash, supply⟩
  · rw [result] at rejected
    cases rejected
    obtain ⟨_, height, tipHash, _, supply⟩ := same
    exact ⟨height, tipHash, supply⟩
  · rw [result] at rejected
    cases rejected

/-- A block of the coinbase alone that passes the checks is connected. -/
theorem connectBlock_coinbase {chain : Chain} {block : Block} {coinbase : Transaction}
    (listed : block.transactions = [coinbase]) (passed : chain.passesChecks block = true) :
    (chain.connectBlock block .empty).1 = true ∧
      Connected chain block coinbase (chain.withCoinbase coinbase)
        (chain.connectBlock block .empty).2.1 := by
  rcases chain.connectBlock_cases block .empty with
    ⟨refused, _⟩ | ⟨_, first, before, failing, later, _, _, _, split, _⟩ |
    ⟨_, first, rest, undos, utxoSet, after, split, processed, connected, result⟩
  · rw [passed] at refused
    cases refused
  · rw [listed] at split
    have lengths := congrArg List.length split
    simp at lengths
  · rw [listed] at split
    cases split
    cases processed
    rw [result]
    exact ⟨rfl, connected⟩

theorem result_of_connected {result : Bool × Chain × BlockUndo} (connected : result.1 = true) :
    result = (true, result.2.1, result.2.2) := by
  rw [← connected]

end Chain

end Parthenon.Chainstate
