import Parthenon.Chainstate.Undo
import Parthenon.Node.Node

namespace Parthenon

open Library Crypto Primitives Consensus Chainstate Validation Storage

/-! # What the calls of a node do

`Start` stops at the genesis block, whose coinbase pays more drachma than any
block may; a submission reaches the mempool alone; a block is turned down or goes
through both ledgers.
-/

theorem Chainstate.Chain.genesis_not_passed {block : Block} {network : NetworkType}
    (coinbase : block.transactions = [Genesis.genesisCoinbase (Genesis.getGenesisParams network)])
    (chain : Chain) : chain.passesChecks block = false := by
  cases passed : chain.passesChecks block with
  | false => rfl
  | true =>
      have valid := (Bool.and_eq_true_iff.mp passed).1
      rw [Chain.passesChecks_cons valid coinbase] at passed
      have listed : (AssetID.drachma, Genesis.drachmaGenesis) ∈
          (AmountMap.sum ((Genesis.genesisCoinbase (Genesis.getGenesisParams network)).outputs.map
            TxOutput.value)).toList := by
        cases network <;> decide
      have allowed := Chain.checkRewards_allowed passed _ listed
      rw [Genesis.drachmaGenesis_not_allowed] at allowed
      cases allowed

/-- A connected block writes what its transactions write. -/
theorem Chainstate.Chain.connectBlock_utxoSet {chain after : Chain} {block : Block} {undo left : BlockUndo}
    (connected : chain.connectBlock block undo = (true, after, left)) :
    after.utxoSet = applyUpdates chain.utxoSet (blockUpdates (chain.height + 1) block.transactions) := by
  rcases chain.connectBlock_cases block undo with
    ⟨_, _, _, result⟩ | ⟨_, _, _, _, _, _, _, _, _, _, _, _, result⟩ |
    ⟨_, coinbase, rest, _, _, reached, listed, connects, shape, result⟩
  · rw [result] at connected
    cases connected
  · rw [result] at connected
    cases connected
  · rw [result] at connected
    cases connected
    rw [shape.1]
    exact Chain.connects_block_updates listed connects

namespace Node

variable {db : LevelDB}

/-- A storage that passes the genesis checks gives back the genesis block at height one. -/
theorem loadGenesis_ok {network : NetworkType} {storage after : BlockStorage db}
    (documented : db.Documented) (loaded : loadGenesis network storage = (some true, after)) :
    1 ≤ after.getHeight ∧ ∃ block, after.getBlockByHeight 1 = .ok block ∧
      block.toBlock.transactions = [Genesis.genesisCoinbase (Genesis.getGenesisParams network)] := by
  unfold loadGenesis at loaded
  split at loaded
  · rename_i aboveZero
    cases found : storage.getBlockByHeight 1 with
    | error fault =>
        rw [found] at loaded
        cases fault <;> cases loaded
    | ok block =>
        rw [found] at loaded
        obtain ⟨expected, rfl⟩ := Prod.mk.inj loaded
        have limits : block.toBlock.WithinLimits := by
          unfold BlockStorage.getBlockByHeight at found
          split at found
          · cases found
          · exact Block.deserialize_withinLimits found
        exact ⟨aboveZero, block, found,
          Genesis.isExpectedGenesisBlock_coinbase limits (Option.some.inj expected)⟩
  · cases stored : storage.storeBlock (Genesis.getGenesisBlock network) 1 with
    | mk success next =>
        rw [stored] at loaded
        cases success with
        | false => cases loaded
        | true =>
            simp only [Bool.not_true, Bool.false_eq_true, if_false] at loaded
            obtain ⟨updated, rfl⟩ := Prod.mk.inj loaded
            have tip : next.updateChainTip 1 (Genesis.getExpectedGenesisHash network) = (true, _) :=
              Prod.ext (Option.some.inj updated) rfl
            have limits := Genesis.getGenesisBlock_withinLimits network
            refine ⟨?_, (Genesis.getGenesisBlock network).parsedObject, ?_, ?_⟩
            · rw [BlockStorage.getHeight_updateChainTip documented tip]
              exact UInt32.le_refl 1
            · rw [BlockStorage.getBlockByHeight_updateChainTip documented tip]
              exact BlockStorage.getBlockByHeight_storeBlock documented limits stored
            · rw [Block.parsedObject_toBlock]
              rfl

/-- The replay stops at the genesis block. -/
theorem replayBlocks_genesis (fuel : Nat) (chain : Chain) {storage : BlockStorage db}
    {chainHeight : UInt32} {block : CachedBlock} {network : NetworkType}
    (aboveZero : 1 ≤ chainHeight) (found : storage.getBlockByHeight 1 = .ok block)
    (genesis : block.toBlock.transactions =
      [Genesis.genesisCoinbase (Genesis.getGenesisParams network)]) :
    ∃ after, Chain.SameState after chain ∧
      replayBlocks storage chainHeight (fuel + 1) 1 chain = some (some false, after) := by
  rcases chain.connectBlock_cases block.toBlock .empty with
    ⟨_, after, same, result⟩ | ⟨passed, _⟩ | ⟨passed, _⟩
  · refine ⟨after, same, ?_⟩
    rw [replayBlocks, if_pos aboveZero, found]
    simp only [result]
  · rw [Chain.genesis_not_passed genesis] at passed
    cases passed
  · rw [Chain.genesis_not_passed genesis] at passed
    cases passed

/-- `Start` never succeeds, and leaves the ledgers where they were. -/
theorem start_refused (documented : db.Documented) {fuel : Nat} {utxoOpens networkStarts : Bool}
    {node after : Node db} {result : Option Bool}
    (done : node.start fuel utxoOpens networkStarts = some (result, after)) :
    result ≠ some true ∧ after.chainState = node.chainState ∧ after.mempool = node.mempool ∧
      Chain.SameState after.chain node.chain := by
  have unchanged : Chain.SameState node.chain node.chain := ⟨rfl, rfl, rfl, rfl, fun _ => rfl⟩
  unfold start at done
  split at done
  · cases done
    exact ⟨by decide, rfl, rfl, unchanged⟩
  · dsimp only at done
    split at done
    · cases done
      exact ⟨by decide, rfl, rfl, unchanged⟩
    · split at done
      · cases done
        exact ⟨by decide, rfl, rfl, unchanged⟩
      · split at done
        · cases done
          exact ⟨by decide, rfl, rfl, unchanged⟩
        · cases done
          exact ⟨by decide, rfl, rfl, unchanged⟩
        · rename_i loaded
          obtain ⟨aboveZero, block, found, genesis⟩ := loadGenesis_ok documented (Prod.ext loaded rfl)
          cases fuel with
          | zero => cases done
          | succ fuel =>
              obtain ⟨chain, same, replayed⟩ :=
                replayBlocks_genesis fuel node.chain aboveZero found genesis
              rw [replayed] at done
              cases done
              exact ⟨by decide, rfl, rfl, same⟩

/-- The node after a block it has accepted. -/
def afterBlock (node : Node db) (block : Block) (chain : Chain) : Node db :=
  { node with
    chain
    chainState := (node.chainState.applyBlock block).2
    blockStorage := storeTip node.blockStorage block chain.height
    mempool := node.mempool.removeTransactions (block.transactions.map Transaction.getTxID) }

/-- A block is turned down, with the tip and the supplies where they were, or both
ledgers accept it. -/
theorem validateAndApplyBlock_cases (secp : Secp256k1) (node : Node db) (block : Block) :
    (∃ outcome chain, outcome ≠ some true ∧
      node.validateAndApplyBlock secp block = (outcome, { node with chain }) ∧
      chain.height = node.chain.height ∧ chain.tipHash = node.chain.tipHash ∧
      ∀ asset, chain.getTotalSupply asset = node.chain.getTotalSupply asset) ∨
    (∃ chain undo, node.chainState.validateBlock block = some true ∧
      (∀ tx ∈ block.transactions.drop 1, node.passesValidators secp tx = true) ∧
      node.chain.connectBlock block .empty = (true, chain, undo) ∧
      node.validateAndApplyBlock secp block = (some true, node.afterBlock block chain)) := by
  have refused (outcome : Option Bool) (notTrue : outcome ≠ some true)
      (same : node.validateAndApplyBlock secp block = (outcome, node)) :
      ∃ outcome chain, outcome ≠ some true ∧
        node.validateAndApplyBlock secp block = (outcome, { node with chain }) ∧
        chain.height = node.chain.height ∧ chain.tipHash = node.chain.tipHash ∧
        ∀ asset, chain.getTotalSupply asset = node.chain.getTotalSupply asset :=
    ⟨outcome, node.chain, notTrue, same, rfl, rfl, fun _ => rfl⟩
  cases isValid : block.isValid with
  | false =>
      refine .inl (refused (some false) (by decide) ?_)
      rw [validateAndApplyBlock, isValid]
      rfl
  | true =>
      cases valid : node.chainState.validateBlock block with
      | none =>
          refine .inl (refused none (by decide) ?_)
          rw [validateAndApplyBlock, isValid, valid]
          rfl
      | some accepted =>
          cases accepted with
          | false =>
              refine .inl (refused (some false) (by decide) ?_)
              rw [validateAndApplyBlock, isValid, valid]
              rfl
          | true =>
              cases pass : (block.transactions.drop 1).all (node.passesValidators secp) with
              | false =>
                  refine .inl (refused (some false) (by decide) ?_)
                  rw [validateAndApplyBlock, isValid, valid, pass]
                  rfl
              | true =>
                  cases result : node.chain.connectBlock block .empty with
                  | mk connected rest =>
                      obtain ⟨chain, undo⟩ := rest
                      cases connected with
                      | false =>
                          refine .inl ⟨some false, chain, by decide, ?_,
                            Chain.connectBlock_rejected result⟩
                          rw [validateAndApplyBlock, isValid, valid, pass, result]
                          rfl
                      | true =>
                          refine .inr ⟨chain, undo, rfl, List.all_eq_true.mp pass, rfl, ?_⟩
                          rcases node.chainState.applyBlock_cases block with
                            ⟨notValid, _⟩ | ⟨_, _, _, _, _, applied⟩
                          · exact absurd valid notValid
                          · rw [afterBlock, validateAndApplyBlock, isValid, valid, pass, result, applied]
                            rfl

theorem submitTransaction_keeps {secp : Secp256k1} {fuel : Nat} {node after : Node db}
    {tx : CachedTransaction} {time : UInt32} {result : Bool}
    (done : node.submitTransaction secp fuel tx time = some (result, after)) :
    after.chainState = node.chainState ∧ after.chain = node.chain := by
  unfold submitTransaction at done
  split at done
  · cases done
    exact ⟨rfl, rfl⟩
  · split at done
    · cases done
    · cases done
      exact ⟨rfl, rfl⟩

/-- A submission, or a block that the node accepts. -/
def AcceptedStep (secp : Secp256k1) (node : Node db) (call : NodeCall) (after : Node db) : Prop :=
  node.Step secp call after ∧
    match call with
    | .start _ _ => False
    | .submitTransaction _ _ => True
    | .validateAndApplyBlock block => (node.validateAndApplyBlock secp block).1 = some true

/-- What an accepted block does to the coins and to the pool. -/
theorem accepted_block {secp : Secp256k1} {node after : Node db} {block : Block}
    (accepted : node.AcceptedStep secp (.validateAndApplyBlock block) after) :
    after.chain.utxoSet = applyUpdates node.chain.utxoSet
        (blockUpdates (node.chain.height + 1) block.transactions) ∧
      after.mempool =
        node.mempool.removeTransactions (block.transactions.map Transaction.getTxID) := by
  obtain ⟨next, isAccepted⟩ := accepted
  rw [Step] at next
  subst next
  dsimp only at isAccepted
  rcases node.validateAndApplyBlock_cases secp block with
    ⟨outcome, chain, notTrue, result, _⟩ | ⟨chain, undo, _, _, connected, result⟩
  · rw [result] at isAccepted
    exact absurd isAccepted notTrue
  · rw [result]
    exact ⟨Chain.connectBlock_utxoSet connected, rfl⟩

theorem accepted_block_chainState {secp : Secp256k1} {node after : Node db} {block : Block}
    {coinbase : Transaction} {rest : List Transaction}
    (accepted : node.AcceptedStep secp (.validateAndApplyBlock block) after)
    (listed : block.transactions = coinbase :: rest) :
    after.chainState =
      { height := node.chainState.height + 1
        tipHash := block.getHash
        totalSupply := adjustAll (· + ·) 0 node.chainState.totalSupply
          (ChainState.getCoinbaseOutputs coinbase) } := by
  obtain ⟨next, isAccepted⟩ := accepted
  rw [Step] at next
  subst next
  dsimp only at isAccepted
  rcases node.validateAndApplyBlock_cases secp block with
    ⟨outcome, chain, notTrue, result, _⟩ | ⟨chain, undo, valid, _, _, result⟩
  · rw [result] at isAccepted
    exact absurd isAccepted notTrue
  · rcases node.chainState.applyBlock_cases block with ⟨notValid, _⟩ | ⟨_, _, _, sameList, _, applied⟩
    · exact absurd valid notValid
    · rw [listed] at sameList
      cases sameList
      rw [result, afterBlock, applied]

end Node

end Parthenon
