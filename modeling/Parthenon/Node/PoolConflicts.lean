import Parthenon.Mempool.Contents
import Parthenon.Node.PreCheck

namespace Parthenon

open Library Crypto Primitives Consensus Chainstate Validation Storage

/-! # The mempool beside the chain

An accepted block takes its own transactions out of the mempool and no others, so
one that it conflicts with stays there with an input that is gone.
-/

namespace Chainstate

theorem mem_createUpdates {tx : Transaction} {height : UInt32} {isCoinbase : Bool}
    {outpoint : OutPoint} {written : Option Coin}
    (member : (outpoint, written) ∈ createUpdates tx height isCoinbase) :
    outpoint ∈ createdOutpoints tx := by
  obtain ⟨created, listed, same⟩ := List.mem_map.mp member
  rw [← createdCoins_outpoints tx height isCoinbase]
  exact List.mem_map.mpr ⟨created, listed, congrArg Prod.fst same⟩

/-- A coin that a block leaves at an outpoint is an output of one of its transactions. -/
theorem created_of_lastWrite {height : UInt32} {txs : List Transaction} {outpoint : OutPoint}
    {coin : Coin} (wrote : lastWrite (blockUpdates height txs) outpoint = some (some coin)) :
    ∃ creator ∈ txs, outpoint ∈ createdOutpoints creator := by
  have member := mem_of_lastWrite wrote
  cases txs with
  | nil => contradiction
  | cons coinbase rest =>
      rcases List.mem_append.mp member with ofCoinbase | ofRest
      · exact ⟨coinbase, List.mem_cons_self, mem_createUpdates ofCoinbase⟩
      · obtain ⟨tx, listed, update⟩ := List.mem_flatMap.mp ofRest
        rcases List.mem_append.mp update with spent | created
        · obtain ⟨_, _, same⟩ := List.mem_map.mp spent
          cases same
        · exact ⟨tx, List.mem_cons_of_mem _ listed, mem_createUpdates created⟩

theorem lastWrite_of_spent {height : UInt32} {txs : List Transaction} {tx : Transaction}
    {outpoint : OutPoint} (confirmed : tx ∈ txs.drop 1) (spends : outpoint ∈ tx.prevouts) :
    lastWrite (blockUpdates height txs) outpoint ≠ none := by
  intro untouched
  cases txs with
  | nil => contradiction
  | cons coinbase rest =>
      have update : ((outpoint, none) : CoinUpdate) ∈ transactionUpdates height tx :=
        List.mem_append_left _ (List.mem_map.mpr ⟨outpoint, spends, rfl⟩)
      have listed : ((outpoint, none) : CoinUpdate) ∈ blockUpdates height (coinbase :: rest) :=
        List.mem_append_right _ (List.mem_flatMap.mpr ⟨tx, confirmed, update⟩)
      exact lastWrite_eq_none.mp untouched _ listed rfl

end Chainstate

namespace Node

variable {db : LevelDB}

/-- Every input of a pool transaction is a coin. -/
def PoolSpendable (node : Node db) : Prop :=
  ∀ (txid : Hash) entry, node.mempool.transactions[txid]? = some entry →
    ∀ outpoint ∈ entry.tx.prevouts, ∃ coin, node.chain.utxoSet.getCoin outpoint = some coin

/-- The block leaves no outpoint spent that a pool transaction outside the block spends. -/
def SparesPool (node : Node db) (block : Block) : Prop :=
  ∀ (txid : Hash) entry, node.mempool.transactions[txid]? = some entry →
    txid ∉ block.transactions.map Transaction.getTxID → ∀ outpoint ∈ entry.tx.prevouts,
      lastWrite (blockUpdates (node.chain.height + 1) block.transactions) outpoint ≠ some none

/-- An accepted step whose block spares the pool. -/
def OrderlyStep (secp : Secp256k1) (node : Node db) (call : NodeCall) (after : Node db) : Prop :=
  node.AcceptedStep secp call after ∧
    match call with
    | .validateAndApplyBlock block => node.SparesPool block
    | _ => True

/-- An accepted block leaves the pool spendable exactly when it spares it. -/
theorem block_poolSpendable_iff {secp : Secp256k1} {node after : Node db} {block : Block}
    (spendable : node.PoolSpendable)
    (accepted : node.AcceptedStep secp (.validateAndApplyBlock block) after) :
    after.PoolSpendable ↔ node.SparesPool block := by
  obtain ⟨utxoSet, mempool⟩ := accepted_block accepted
  have lookup (outpoint : OutPoint) : after.chain.utxoSet.getCoin outpoint =
      (lastWrite (blockUpdates (node.chain.height + 1) block.transactions) outpoint).getD
        (node.chain.utxoSet.getCoin outpoint) := by
    rw [utxoSet]
    exact getElem?_applyUpdates _ _ _
  have remaining (txid : Hash) : after.mempool.transactions[txid]? =
      if txid ∈ block.transactions.map Transaction.getTxID then none
      else node.mempool.transactions[txid]? := by
    rw [mempool, Mempool.removeTransactions_lookup]
  constructor
  · intro spendableAfter txid entry found outside outpoint spends gone
    have stays : after.mempool.transactions[txid]? = some entry := by
      rw [remaining, if_neg outside, found]
    obtain ⟨coin, isCoin⟩ := spendableAfter txid entry stays outpoint spends
    rw [lookup, gone] at isCoin
    cases isCoin
  · intro spares txid entry stays outpoint spends
    rw [remaining] at stays
    split at stays
    · cases stays
    · rename_i outside
      have notGone := spares txid entry stays outside outpoint spends
      rw [lookup]
      cases wrote : lastWrite (blockUpdates (node.chain.height + 1) block.transactions) outpoint with
      | none => exact spendable txid entry stays outpoint spends
      | some written =>
          cases written with
          | none => exact absurd wrote notGone
          | some coin => exact ⟨coin, rfl⟩

theorem submission_poolSpendable {secp : Secp256k1} {fuel : Nat} {node after : Node db}
    {tx : CachedTransaction} {time : UInt32} {result : Bool} (spendable : node.PoolSpendable)
    (asksFee : node.mempool.minRelayFee ≠ 0)
    (done : node.submitTransaction secp fuel tx time = some (result, after)) :
    after.PoolSpendable ∧ after.mempool.minRelayFee ≠ 0 := by
  unfold submitTransaction at done
  split at done
  · cases done
    exact ⟨spendable, asksFee⟩
  · split at done
    · cases done
    · rename_i added mempool isAdded
      cases done
      obtain ⟨sameFee, contents⟩ := Mempool.addTransaction_contents isAdded
      refine ⟨?_, sameFee ▸ asksFee⟩
      intro txid entry found outpoint spends
      rcases contents txid entry found with ⟨held, isHeld, sameTx⟩ | ⟨sameTx, accepted, valid⟩
      · rw [← sameTx] at spends
        exact spendable txid held isHeld outpoint spends
      · rw [sameTx, ← tx.getTxID_toTransaction] at spends
        exact Mempool.validateTransaction_inputs asksFee valid outpoint spends

theorem orderly_step_poolSpendable {secp : Secp256k1} {node after : Node db} {call : NodeCall}
    (holds : node.PoolSpendable ∧ node.mempool.minRelayFee ≠ 0)
    (next : node.OrderlyStep secp call after) :
    after.PoolSpendable ∧ after.mempool.minRelayFee ≠ 0 := by
  obtain ⟨spendable, asksFee⟩ := holds
  obtain ⟨accepted, orderly⟩ := next
  cases call with
  | start utxoOpens networkStarts => exact accepted.2.elim
  | submitTransaction tx time =>
      obtain ⟨fuel, result, done⟩ := accepted.1
      exact submission_poolSpendable spendable asksFee done
  | validateAndApplyBlock block =>
      refine ⟨(block_poolSpendable_iff spendable accepted).mpr orderly, ?_⟩
      rw [(accepted_block accepted).2, Mempool.removeTransactions_minRelayFee]
      exact asksFee

/-- The blocks among the calls. -/
def blocksOf (calls : List NodeCall) : List Block :=
  calls.filterMap fun
    | .validateAndApplyBlock block => some block
    | _ => none

/-- A coin at an outpoint that a block of the list has spent was created by that
block or by a later one. -/
def SpentOrCreatedAgain (utxoSet : UTXOSet) (blocks : List Block) : Prop :=
  ∀ before block later, blocks = before ++ block :: later →
    ∀ tx ∈ block.transactions.drop 1, ∀ outpoint ∈ tx.prevouts,
      ∀ coin, utxoSet.getCoin outpoint = some coin →
        ∃ creator ∈ (block :: later).flatMap Block.transactions, outpoint ∈ createdOutpoints creator

theorem SpentOrCreatedAgain.block {utxoSet : UTXOSet} {blocks : List Block}
    (earlier : SpentOrCreatedAgain utxoSet blocks) (height : UInt32) (last : Block) :
    SpentOrCreatedAgain (applyUpdates utxoSet (blockUpdates height last.transactions))
      (blocks ++ [last]) := by
  intro before block later split tx confirmed outpoint spends coin found
  rw [UTXOSet.getCoin, getElem?_applyUpdates] at found
  have created (wrote : lastWrite (blockUpdates height last.transactions) outpoint ≠ none) :
      ∃ creator ∈ last.transactions, outpoint ∈ createdOutpoints creator := by
    obtain ⟨written, isWritten⟩ := Option.ne_none_iff_exists'.mp wrote
    rw [isWritten, Option.getD_some] at found
    rw [found] at isWritten
    exact created_of_lastWrite isWritten
  rcases List.eq_nil_or_concat later with rfl | ⟨others, newest, rfl⟩
  · -- The spending block is the last one.
    obtain ⟨_, isLast⟩ := List.append_inj' split rfl
    cases isLast
    obtain ⟨creator, listed, creates⟩ := created (lastWrite_of_spent confirmed spends)
    exact ⟨creator, List.mem_flatMap.mpr ⟨last, List.mem_singleton_self _, listed⟩, creates⟩
  · have shorter : blocks ++ [last] = (before ++ block :: others) ++ [newest] := by simpa using split
    obtain ⟨isBefore, isLast⟩ := List.append_inj' shorter rfl
    cases isLast
    rw [List.concat_eq_append, ← List.cons_append, List.flatMap_append]
    cases wrote : lastWrite (blockUpdates height last.transactions) outpoint with
    | none =>
        rw [wrote, Option.getD_none] at found
        obtain ⟨creator, listed, creates⟩ :=
          earlier before block others isBefore tx confirmed outpoint spends coin found
        exact ⟨creator, List.mem_append_left _ listed, creates⟩
    | some written =>
        obtain ⟨creator, listed, creates⟩ := created (by rw [wrote]; exact Option.some_ne_none _)
        have member := List.mem_flatMap.mpr ⟨last, List.mem_singleton_self _, listed⟩
        exact ⟨creator, List.mem_append_right _ member, creates⟩

theorem run_spentOrCreatedAgain {secp : Secp256k1} {start node : Node db} {calls : List NodeCall}
    (run : Run (AcceptedStep secp) start calls node) :
    SpentOrCreatedAgain node.chain.utxoSet (blocksOf calls) := by
  induction run with
  | start =>
      intro before block later split
      simp [blocksOf] at split
  | @step calls node call after _ accepted ih =>
      rw [blocksOf, List.filterMap_append]
      cases call with
      | start utxoOpens networkStarts => exact accepted.2.elim
      | submitTransaction tx time =>
          obtain ⟨fuel, result, done⟩ := accepted.1
          rw [(submitTransaction_keeps done).2]
          simpa [blocksOf] using ih
      | validateAndApplyBlock block =>
          rw [(accepted_block accepted).1]
          exact ih.block _ block

/-! A block confirms another spend of a coin that a pool transaction spends. -/
namespace ConflictingBlock

open BlockValidator.DoubleSpend (coin createUpdates_single fillerCoinbase fillerID filler_getTxID
  fundingID key signature spend spendID spend_covered spend_getSignatureHash spend_getTxID
  spend_structure)
open MaturedCoin (Matured spendBlock tip)

def pooledSignature : Signature := ⟨List.replicate 64 2, rfl⟩

def pooled : Transaction :=
  Sample.spend ⟨fundingID, 0⟩ (.ofArray pooledSignature ByteVector.signature_small)
    [Sample.output 4999990000 ⟨[1], ByteVector.one_fits⟩]

def pooledID : Hash := .ofNat 32 0x42bc55adb2451a9ef790bb5465ec582c94e53bba2af6c340d5c5b0cfd56cc249

/-- A library that takes one signature for the message of each of the two spends. -/
def library : Secp256k1 where
  Keypair := Empty
  XonlyPubkey := PublicKey
  ecSeckeyVerify _ := false
  keypairCreate _ := none
  keypairXonlyPub := nofun
  xonlyPubkeySerialize pubkey := some pubkey
  xonlyPubkeyParse pubkey := some pubkey
  schnorrsigSign32 _ := nofun
  schnorrsigVerify given message pubkey := pubkey = key &&
    (given = signature && message =
        .ofNat 32 0x452567079a42ea7cde76c68b024221ebe19b572756f4dccdeb75ede9e02f0cc4 ||
      given = pooledSignature && message =
        .ofNat 32 0xaf54aca828148ad9446a37a7f843d82e067d15aacacc92025a72e6dbcf8339a7)

def block : Block := spendBlock MaturedCoin.tip100

theorem hashes : pooled.getTxID = pooledID ∧ block.header.meetsDifficultyTarget = true ∧
    pooled.getSignatureHash 0 =
      .ofNat 32 0xaf54aca828148ad9446a37a7f843d82e067d15aacacc92025a72e6dbcf8339a7 := by
  unfold BlockHeader.meetsDifficultyTarget Transaction.getTxID BlockHeader.getHash
    Transaction.getSignatureHash
  simp only [SHA256d.hash256d_eq_words, SHA256.hash256_eq_wordHash]
  decide +kernel

theorem block_isValid : block.isValid = true := MaturedCoin.spendBlock_isValid hashes.2.1

theorem block_eq : block = spendBlock (tip 100) := by
  rw [MaturedCoin.tip_100, block]

theorem coin_spendable {height : UInt32} (mature : height ≥ 101) : coin.isSpendable height = true := by
  simp only [Coin.isSpendable, coin, Bool.not_true, Bool.false_or]
  exact decide_eq_true mature

theorem passes {tx : Transaction} {input : TxInput} {given : Signature} {node : Node .memory}
    (matured : Matured library 100 node)
    (structural : TransactionValidator.validateStructure tx = .ok ())
    (ordinary : tx.isCoinbase = false) (inputs : tx.inputs = [input])
    (spends : input.prevout = ⟨fundingID, 0⟩)
    (covered : (AmountMap.sum ([coin].map (·.output.value))).covers
      (AmountMap.sum (tx.outputs.map TxOutput.value)) = true)
    (isGiven : FixedBytes.ofBytes? Schnorr.signatureSize input.signatureScript.bytes = some given)
    (verified : Schnorr.verify library key (tx.getSignatureHash 0) given = true) :
    node.passesValidators library tx = true := by
  have mature : node.chain.height ≥ 101 := by
    rw [matured.chain_height]
    decide
  have coins : Chain.inputCoins node.chain.utxoSet node.chain.height tx.prevouts = some [coin] := by
    simp only [Transaction.prevouts, inputs, List.map_cons, List.map_nil, spends, Chain.inputCoins,
      matured.found, coin_spendable mature, if_true, Option.map_some]
  refine passesValidators_iff.mpr ⟨structural, ?_, ?_⟩
  · rw [(Chain.validateTransaction_eq_some ordinary).mpr ⟨coins, covered⟩]
    rfl
  · have found : node.chain.utxoSet.getCoin input.prevout = some coin := by
      rw [spends, matured.found]
    exact TransactionValidator.validateSignatures_single inputs found
      (FixedBytes.ofBytes?_bytes key) isGiven rfl verified

theorem pooled_passes {node : Node .memory} (matured : Matured library 100 node) :
    node.passesValidators library pooled = true :=
  passes matured (by decide) (by decide) rfl rfl (by decide +kernel)
    (FixedBytes.ofBytes?_bytes pooledSignature) (by rw [hashes.2.2]; rfl)

theorem spend_passes {node : Node .memory} (matured : Matured library 100 node) :
    node.passesValidators library spend = true :=
  passes matured spend_structure (by decide) rfl rfl spend_covered
    (FixedBytes.ofBytes?_bytes signature) (by rw [spend_getSignatureHash]; rfl)

/-- A coin set with nothing but the coin. -/
def coins : UTXOSet := UTXOSet.addCoin ∅ ⟨fundingID, 0⟩ coin

def addition : Option (Bool × Mempool) :=
  Mempool.fresh.addTransaction 1 (.ofTransaction pooled) coins 101 0

theorem addition_stores : addition.map (fun done =>
    (done.1, done.2.transactions[pooledID]?.map (·.tx.prevouts))) =
      some (true, some [⟨fundingID, 0⟩]) := by decide +kernel

theorem submission_stores {node : Node .memory} (matured : Matured library 100 node) :
    ∃ after entry, node.submitTransaction library 1 (.ofTransaction pooled) 0 = some (true, after) ∧
      after.mempool.transactions[pooledID]? = some entry ∧ entry.tx.prevouts = [⟨fundingID, 0⟩] := by
  obtain ⟨⟨result, mempool⟩, isAddition, same⟩ := Option.map_eq_some_iff.mp addition_stores
  obtain ⟨rfl, stored⟩ := Prod.mk.inj same
  obtain ⟨entry, found, prevouts⟩ := Option.map_eq_some_iff.mp stored
  have sameCoins : ∀ outpoint ∈ pooled.prevouts,
      node.chain.utxoSet.getCoin outpoint = coins.getCoin outpoint := by
    intro outpoint member
    obtain rfl : outpoint = ⟨fundingID, 0⟩ := List.mem_singleton.mp member
    rw [matured.found, coins, UTXOSet.addCoin, UTXOSet.getCoin, Std.ExtTreeMap.getElem?_insert_self]
  have height : node.getHeight = 101 := matured.chain_height
  refine ⟨{ node with mempool }, entry, ?_, found, prevouts⟩
  have passed : node.passesValidators library (CachedTransaction.ofTransaction pooled).toTransaction =
      true := pooled_passes matured
  rw [addition] at isAddition
  rw [submitTransaction, passed, matured.mempool, height, Mempool.addTransaction_congr sameCoins,
    isAddition]
  rfl

theorem block_accepted {node submitted : Node .memory} (matured : Matured library 100 node)
    (chainState : submitted.chainState = node.chainState) (chain : submitted.chain = node.chain) :
    (submitted.validateAndApplyBlock library block).1 = some true := by
  have isValid := block_isValid
  rw [block_eq] at isValid ⊢
  refine validateAndApplyBlock_eq_true.mpr ⟨?_, ?_, ?_⟩
  · rw [chainState]
    exact matured.valid_spendBlock (Nat.le_refl 100) isValid
  · intro tx member
    obtain rfl : tx = spend := List.mem_singleton.mp member
    have passed := spend_passes matured
    rw [passesValidators, getHeight] at passed ⊢
    rwa [chain]
  · rw [chain]
    exact matured.spendBlock_connects (Nat.le_refl 100) (by decide) isValid

theorem block_listed : block.transactions = [fillerCoinbase, spend] := rfl

theorem block_spends_coin :
    lastWrite (blockUpdates 102 block.transactions) ⟨fundingID, 0⟩ = some none := by
  have spends : spendUpdates spend = [(⟨fundingID, 0⟩, none)] := rfl
  rw [block_listed, blockUpdates, List.flatMap_cons, List.flatMap_nil, transactionUpdates, spends,
    createUpdates_single rfl, createUpdates_single rfl, filler_getTxID, spend_getTxID]
  rfl

theorem pooled_outside : pooledID ∉ block.transactions.map Transaction.getTxID := by
  rw [block_listed, List.map_cons, List.map_cons, List.map_nil, filler_getTxID, spend_getTxID]
  decide

end ConflictingBlock

end Node

end Parthenon
