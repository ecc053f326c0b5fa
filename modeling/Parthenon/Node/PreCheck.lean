import Parthenon.Chainstate.Atomicity
import Parthenon.Node.Ledgers
import Parthenon.Primitives.HeaderWords

namespace Parthenon

open Library Crypto Primitives Consensus Chainstate Validation Storage

/-! # The pre-check of the node

The node validates the transactions of a block at its current height against the
set before the block, `ConnectBlock` one height later against the set that the
block has changed.  The two differ on coins that the block makes and on coinbases
that mature with it.
-/

namespace Validation

/-- The set that a transaction meets when its block is connected. -/
theorem BlockValidator.reachedSet_withCoinbase (chain : Chain) (coinbase : Transaction)
    (before : List Transaction) :
    reachedSet (chain.height + 1) (chain.withCoinbase coinbase) before =
      applyUpdates chain.utxoSet (blockUpdates (chain.height + 1) (coinbase :: before)) := by
  have processed (set : UTXOSet) : reachedSet (chain.height + 1) set before =
      applyUpdates set (before.flatMap (transactionUpdates (chain.height + 1))) := by
    induction before generalizing set with
    | nil => rfl
    | cons tx rest ih =>
        rw [List.flatMap_cons, applyUpdates_append, ← Chain.processed_eq]
        exact ih _
  rw [processed, Chain.withCoinbase_updates]

/-- A transaction that `IsValid` takes has the structure that the validator asks for. -/
theorem TransactionValidator.validateStructure_of_isValid {tx : Transaction}
    (ordinary : tx.isCoinbase = false) (valid : tx.isValid = true) :
    validateStructure tx = .ok () := by
  have distinct := decide_eq_true (Transaction.isValid_prevouts_nodup valid ordinary)
  obtain ⟨hasInputs, hasOutputs, outputs, _⟩ := Transaction.isValid_iff.mp valid
  rw [validateStructure, then_ok, then_ok, then_ok, ensure_ok, ensure_ok, ensure_ok, ensure_ok]
  refine ⟨?_, ?_, distinct, ?_⟩
  · rw [ordinary, hasInputs]
    rfl
  · rw [hasOutputs]
    rfl
  · rw [List.all_eq_true]
    intro output member
    exact (Bool.and_eq_true_iff.mp (outputs output member)).1

theorem TransactionValidator.validateSignatures_congr {secp : Secp256k1} {tx : Transaction}
    {left right : UTXOSet}
    (same : ∀ outpoint ∈ tx.prevouts, left.getCoin outpoint = right.getCoin outpoint) :
    validateSignatures secp tx left = .ok () ↔ validateSignatures secp tx right = .ok () := by
  unfold validateSignatures
  cases tx.isCoinbase with
  | true => simp
  | false =>
      simp only [Bool.false_eq_true, if_false, checkEach_ok]
      refine forall_congr' fun indexed => forall_congr' fun member => ?_
      have spends : indexed.1.prevout ∈ tx.prevouts :=
        List.mem_map_of_mem (List.fst_mem_of_mem_zipIdx member)
      rw [validateInputSignature, validateInputSignature, same _ spends]

end Validation

namespace Node

variable {db : LevelDB}

theorem passesValidators_iff {secp : Secp256k1} {node : Node db} {tx : Transaction} :
    node.passesValidators secp tx = true ↔
      TransactionValidator.validateStructure tx = .ok () ∧
      (Chain.validateTransaction node.chain.utxoSet tx node.chain.height).isSome = true ∧
      TransactionValidator.validateSignatures secp tx node.chain.utxoSet = .ok () := by
  have isOk_unit (check : Except ValidationError Unit) : check.isOk = true ↔ check = .ok () := by
    cases check <;> simp [Except.isOk, Except.toBool]
  have isOk_result (check : Except ValidationError TransactionValidator.UTXOValidationResult) :
      check.isOk = true ↔ ∃ result, check = .ok result := by
    cases check <;> simp [Except.isOk, Except.toBool]
  rw [passesValidators, Bool.and_eq_true, Bool.and_eq_true, isOk_unit, isOk_result, isOk_unit,
    TransactionValidator.validateAgainstUTXO_ok_iff, and_assoc]
  rfl

/-- The node accepts a block that the chain state, the pre-check and the chain accept. -/
theorem validateAndApplyBlock_eq_true {secp : Secp256k1} {node : Node db} {block : Block} :
    (node.validateAndApplyBlock secp block).1 = some true ↔
      node.chainState.validateBlock block = some true ∧
      (∀ tx ∈ block.transactions.drop 1, node.passesValidators secp tx = true) ∧
      (node.chain.connectBlock block .empty).1 = true := by
  constructor
  · intro accepted
    rcases node.validateAndApplyBlock_cases secp block with
      ⟨outcome, chain, notTrue, result, _⟩ | ⟨chain, undo, valid, pass, connected, _⟩
    · rw [result] at accepted
      exact absurd accepted notTrue
    · exact ⟨valid, pass, by rw [connected]⟩
  · rintro ⟨valid, pass, connects⟩
    have isValid := (ChainState.validateBlock_eq_true.mp valid).1
    have passAll : (block.transactions.drop 1).all (node.passesValidators secp) = true :=
      List.all_eq_true.mpr pass
    rcases connected : node.chain.connectBlock block .empty with ⟨done, chain, undo⟩
    rw [connected] at connects
    dsimp only at connects
    subst connects
    rcases node.chainState.applyBlock_cases block with ⟨notValid, _⟩ | ⟨_, _, _, _, _, applied⟩
    · exact absurd valid notValid
    · rw [validateAndApplyBlock, isValid, valid, passAll, connected, applied]
      rfl

/-- Each transaction is signed for the coins that it meets when the block is connected. -/
def SignedWhenReached (secp : Secp256k1) (chain : Chain) (block : Block) : Prop :=
  ∀ coinbase rest, block.transactions = coinbase :: rest →
    ∀ before tx later, rest = before ++ tx :: later →
      TransactionValidator.validateSignatures secp tx
        (BlockValidator.reachedSet (chain.height + 1) (chain.withCoinbase coinbase) before) = .ok ()

/-- Every input is a coin of the set before the block that is spendable at the current
height.  Where the block has stored another coin over one, the coins before the block
pay and sign for the transaction as well. -/
def SpendsOlderCoins (secp : Secp256k1) (chain : Chain) (block : Block) : Prop :=
  ∀ coinbase rest, block.transactions = coinbase :: rest →
    ∀ before tx later, rest = before ++ tx :: later →
      BlockValidator.InputsSpendable chain.utxoSet chain.height tx ∧
      ((∃ outpoint ∈ tx.prevouts,
          lastWrite (blockUpdates (chain.height + 1) (coinbase :: before)) outpoint ≠ none) →
        (Chain.validateTransaction chain.utxoSet tx chain.height).isSome = true ∧
        TransactionValidator.validateSignatures secp tx chain.utxoSet = .ok ())

/-- A transaction that meets the coins of the set before the block passes the pre-check. -/
theorem passes_of_olderCoins {secp : Secp256k1} {node : Node db} {coinbase tx : Transaction}
    {before : List Transaction} (ordinary : tx.isCoinbase = false) (isValid : tx.isValid = true)
    (processed : (Chain.validateTransaction (BlockValidator.reachedSet (node.chain.height + 1)
      (node.chain.withCoinbase coinbase) before) tx (node.chain.height + 1)).isSome = true)
    (signed : TransactionValidator.validateSignatures secp tx (BlockValidator.reachedSet
      (node.chain.height + 1) (node.chain.withCoinbase coinbase) before) = .ok ())
    (older : BlockValidator.InputsSpendable node.chain.utxoSet node.chain.height tx)
    (untouched : ∀ outpoint ∈ tx.prevouts,
      lastWrite (blockUpdates (node.chain.height + 1) (coinbase :: before)) outpoint = none) :
    node.passesValidators secp tx = true := by
  rw [BlockValidator.reachedSet_withCoinbase] at processed signed
  have same : ∀ outpoint ∈ tx.prevouts, UTXOSet.getCoin (applyUpdates node.chain.utxoSet
      (blockUpdates (node.chain.height + 1) (coinbase :: before))) outpoint =
        node.chain.utxoSet.getCoin outpoint := by
    intro outpoint member
    rw [UTXOSet.getCoin, getElem?_applyUpdates, untouched outpoint member]
    rfl
  obtain ⟨coins, valid⟩ := Option.isSome_iff_exists.mp processed
  obtain ⟨taken, covered⟩ := (Chain.validateTransaction_eq_some ordinary).mp valid
  have found := Chain.inputCoins_eq_some.mp taken
  have takenBefore : Chain.inputCoins node.chain.utxoSet node.chain.height tx.prevouts =
      some coins := by
    rw [Chain.inputCoins_eq_some, List.forall₂_iff_get]
    refine ⟨found.length_eq, ?_⟩
    intro index inside insideCoins
    have listed : tx.prevouts[index] ∈ tx.prevouts := List.getElem_mem inside
    have reached := ((List.forall₂_iff_get.mp found).2 index inside insideCoins).1
    obtain ⟨coin, isCoin, spendable⟩ := older _ listed
    have isReached : node.chain.utxoSet.getCoin tx.prevouts[index] = some coins[index] :=
      (same _ listed).symm.trans reached
    obtain rfl := Option.some.inj (isReached.symm.trans isCoin)
    exact ⟨isCoin, spendable⟩
  refine passesValidators_iff.mpr ⟨TransactionValidator.validateStructure_of_isValid ordinary isValid,
    ?_, (TransactionValidator.validateSignatures_congr same).mp signed⟩
  rw [(Chain.validateTransaction_eq_some ordinary).mpr ⟨takenBefore, covered⟩]
  rfl

theorem spendsOlderCoins_of_accepted {secp : Secp256k1} {node : Node db} {block : Block}
    (accepted : (node.validateAndApplyBlock secp block).1 = some true) :
    SpendsOlderCoins secp node.chain block := by
  obtain ⟨valid, pass, _⟩ := validateAndApplyBlock_eq_true.mp accepted
  obtain ⟨first, others, listed, _, ordinary⟩ :=
    Block.isValid_shape (ChainState.validateBlock_eq_true.mp valid).1
  intro coinbase rest sameList before tx later split
  rw [listed] at sameList pass
  cases sameList
  have member : tx ∈ others := by
    rw [split]
    exact List.mem_append_right _ List.mem_cons_self
  obtain ⟨_, validBefore, signedBefore⟩ := passesValidators_iff.mp (pass tx member)
  obtain ⟨_, result⟩ := TransactionValidator.validateAgainstUTXO_ok_iff.mpr validBefore
  exact ⟨TransactionValidator.inputs_found (ordinary tx member) result,
    fun _ => ⟨validBefore, signedBefore⟩⟩

/-! ## Blocks of a coinbase alone -/

/-- The reward check of the chain passes where the one of the chain state does. -/
theorem checkRewards_of_validateOutputs {blockHeight : UInt32} {supply totalSupply : AmountMap}
    (agree : ∀ asset, totalSupply.getD asset 0 = supply.getD asset 0)
    {rewards : List (AssetID × UInt64)}
    (passed : ChainState.validateOutputs blockHeight.toUInt64 supply rewards = some true) :
    (Chain.checkRewards blockHeight rewards totalSupply).1 = true := by
  induction rewards generalizing totalSupply with
  | nil => rfl
  | cons reward rest ih =>
      obtain ⟨asset, amount⟩ := reward
      rw [ChainState.validateOutputs] at passed
      split at passed
      · cases passed
      · rename_i allowed
        split at passed
        · cases passed
        · rename_i current stored
          split at passed
          · cases passed
          · rename_i fits
            split at passed
            · cases passed
            · rename_i below
              have touched (other : AssetID) :
                  (totalSupply.insertIfNew asset 0).getD other 0 = supply.getD other 0 :=
                (Chain.insertIfNew_zero_getD totalSupply asset other).trans (agree other)
              have isCurrent : (totalSupply.insertIfNew asset 0).getD asset 0 = current := by
                rw [touched, Std.ExtTreeMap.getD_eq_getD_getElem?, stored]
                rfl
              rw [Chain.checkRewards, if_neg allowed]
              dsimp only
              rw [isCurrent, if_neg fits, if_neg below]
              exact ih touched passed

/-- The chain's own checks pass on a block that the chain state accepts. -/
theorem passesChecks_of_valid {state : ChainState} {chain : Chain} {block : Block}
    (inStep : InStep state chain) (low : state.height.toNat + 1 < 2 ^ 32)
    (valid : state.validateBlock block = some true) : chain.passesChecks block = true := by
  obtain ⟨isValid, _, coinbase, rest, listed, outputs⟩ := ChainState.validateBlock_eq_true.mp valid
  have height : (chain.height + 1).toUInt64 = state.height + 1 := by
    rw [inStep.height]
    apply UInt64.toNat_inj.mp
    simp only [UInt32.toNat_toUInt64, UInt32.toNat_add, UInt64.toNat_toUInt32, UInt64.toNat_add,
      UInt32.toNat_one, UInt64.toNat_one]
    omega
  rw [← height] at outputs
  rw [Chain.passesChecks_cons isValid listed]
  exact checkRewards_of_validateOutputs inStep.totalSupply outputs

theorem coinbase_block_accepted (secp : Secp256k1) {node : Node db} {block : Block}
    {coinbase : Transaction} (inStep : InStep node.chainState node.chain)
    (low : node.chainState.height.toNat + 1 < 2 ^ 32)
    (valid : node.chainState.validateBlock block = some true)
    (alone : block.transactions = [coinbase]) :
    (node.validateAndApplyBlock secp block).1 = some true := by
  have passed := passesChecks_of_valid inStep low valid
  refine validateAndApplyBlock_eq_true.mpr ⟨valid, ?_, ?_⟩
  · rw [alone]
    exact nofun
  · exact (BlockValidator.connectBlock_true_iff .empty alone passed).mpr ⟨[], _, .nil⟩

/-! A node under whose chain a coinbase matures. -/
namespace MaturedCoin

open BlockValidator.DoubleSpend (coin createUpdates_single fillerCoinbase fillerID filler_getTxID
  filler_keeps_funding filler_rewards funding fundingCoinbase fundingID funding_getHash
  funding_getTxID leftNode left_hash reward_allowed spend spend_connects spend_getTxID)

def start : Node .memory := construct .regtest ([] : List (Bytes × Bytes))

/-- A block of a coinbase alone that pays nothing. -/
def filler (previous : Hash) : Block := Sample.block previous fillerID [fillerCoinbase]

/-- The hash of the funding block as the state that it is the digest of. -/
def fundingTip : SHA256.State :=
  ⟨2347586596, 2308823692, 3824614813, 2913732047, 2826437991, 2023809780, 455650182, 3862198029⟩

/-- The words of a filler behind the hash of the block before. -/
def fillerWords : List Word :=
  [1907233369, 957220603, 1305258941, 2434068524, 1180594615, 1161825535, 695915275, 2271645132,
    0, 4294967072, 0, 13277755, 0, 0, 0, 2160314625, 0, 2147483648, 0, 0, 0, 0, 832]

/-- The tip after the funding block and a number of fillers. -/
def tip : Nat → SHA256.State
  | 0 => fundingTip
  | count + 1 => hashedState [0x01000000] fillerWords (tip count)

/-- The tip after more fillers, unless one misses the target. -/
def worked : Nat → SHA256.State → Option SHA256.State
  | 0, previous => some previous
  | count + 1, previous =>
      (hashedState [0x01000000] fillerWords previous).evaluated fun next =>
        if Difficulty.checkProofOfWork next.digest 0x20ffffff then worked count next else none

theorem hashedState_tip (count : Nat) :
    hashedState [0x01000000] fillerWords (tip count) = tip (count + 1) := by
  rw [tip]

theorem worked_tip {more count : Nat} {last : SHA256.State}
    (done : worked more (tip count) = some last) :
    tip (count + more) = last ∧ ∀ earlier < more,
      Difficulty.checkProofOfWork (tip (count + earlier + 1)).digest 0x20ffffff = true := by
  induction more generalizing count with
  | zero => exact ⟨Option.some.inj done, nofun⟩
  | succ more ih =>
      rw [worked, hashedState_tip, SHA256.State.evaluated_eq] at done
      split at done
      · rename_i works
        obtain ⟨isLast, others⟩ := ih done
        have sameLast : count + (more + 1) = count + 1 + more := by omega
        refine ⟨by rw [sameLast, isLast], ?_⟩
        intro earlier inside
        cases earlier with
        | zero => exact works
        | succ earlier =>
            have sameTip : count + (earlier + 1) = count + 1 + earlier := by omega
            rw [sameTip]
            exact others earlier (by omega)
      · cases done

def tip99 : SHA256.State :=
  ⟨3940315853, 1955555499, 2398405590, 3063203140, 2957833038, 1235692754, 3901727425, 1841794372⟩

def tip100 : SHA256.State :=
  ⟨3897486789, 594515742, 2163900282, 1736894662, 1990910918, 3109888522, 2179966442, 3647028637⟩

theorem all_worked : worked 99 (tip 0) = some tip99 ∧ worked 1 tip99 = some tip100 := by
  decide +kernel

theorem worked_99 : worked 99 (tip 0) = some tip99 := all_worked.1

theorem worked_100 : worked 1 tip99 = some tip100 := all_worked.2

theorem tip_99 : tip 99 = tip99 := (worked_tip worked_99).1

theorem tip_100 : tip 100 = tip100 := by
  have one := worked_100
  rw [← tip_99] at one
  exact (worked_tip one).1

theorem tip_works {count : Nat} (few : count < 100) :
    Difficulty.checkProofOfWork (tip (count + 1)).digest 0x20ffffff = true := by
  rcases Nat.lt_or_ge count 99 with early | late
  · have works := (worked_tip worked_99).2 count early
    rwa [Nat.zero_add] at works
  · have one := worked_100
    rw [← tip_99] at one
    obtain rfl : count = 99 := by omega
    exact (worked_tip one).2 0 (by decide)

theorem filler_words : (filler zeroHash).header.earlierWords = [0x01000000] ∧
    (filler zeroHash).header.laterWords = fillerWords := by decide +kernel

theorem earlierWords_filler (previous : Hash) :
    (filler previous).header.earlierWords = [0x01000000] := filler_words.1

theorem laterWords_filler (previous : Hash) :
    (filler previous).header.laterWords = fillerWords := filler_words.2

theorem tip_inRange (count : Nat) : (tip count).InRange := by
  induction count with
  | zero => simp [SHA256.State.InRange, tip, fundingTip]
  | succ count ih =>
      have hashed := (BlockHeader.getHash_eq_hashedState (filler (tip count).digest).header
        ih rfl).2
      rwa [earlierWords_filler, laterWords_filler] at hashed

theorem getHash_filler (count : Nat) :
    (filler (tip count).digest).getHash = (tip (count + 1)).digest := by
  have hashed := (BlockHeader.getHash_eq_hashedState (filler (tip count).digest).header
    (tip_inRange count) rfl).1
  rwa [earlierWords_filler, laterWords_filler] at hashed

/-- The node has accepted the funding block and a number of fillers. -/
structure Matured (secp : Secp256k1) (count : Nat) (node : Node .memory) : Prop where
  reached : ∃ calls, Run (AcceptedStep secp) start calls node
  inStep : InStep node.chainState node.chain
  height : node.chainState.height = UInt64.ofNat (count + 1)
  tipHash : node.chainState.tipHash = (tip count).digest
  supply : node.chainState.totalSupply[AssetID.talanton]? = some 5000000000
  found : node.chain.utxoSet.getCoin ⟨fundingID, 0⟩ = some coin
  mempool : node.mempool = .fresh

theorem Matured.low {secp : Secp256k1} {count : Nat} {node : Node .memory}
    (matured : Matured secp count node) (few : count ≤ 100) :
    node.chainState.height.toNat + 1 < 2 ^ 32 ∧ node.chainState.height ≠ 0 := by
  have height : node.chainState.height.toNat = count + 1 := by
    rw [matured.height, UInt64.toNat_ofNat', Nat.mod_eq_of_lt (by omega)]
  refine ⟨by omega, ?_⟩
  intro zero
  rw [zero, UInt64.toNat_zero] at height
  omega

theorem removeTransactions_fresh (txids : List Hash) :
    Mempool.fresh.removeTransactions txids = .fresh := by
  rw [Mempool.removeTransactions]
  induction txids with
  | nil => rfl
  | cons txid rest ih =>
      have absent : (Mempool.fresh.removeTransaction txid).2 = .fresh := by
        have missing : Mempool.fresh.transactions[txid]? = none := Std.ExtTreeMap.getElem?_empty
        rw [Mempool.removeTransaction, missing]
      rw [List.foldl_cons, absent]
      exact ih

theorem step_accepted {secp : Secp256k1} {node : Node .memory} {block : Block}
    (accepted : (node.validateAndApplyBlock secp block).1 = some true) :
    node.AcceptedStep secp (.validateAndApplyBlock block) (node.validateAndApplyBlock secp block).2 :=
  ⟨rfl, accepted⟩

theorem filler_outputs {count : Nat} {supply : AmountMap} (few : count ≤ 101)
    (stored : supply[AssetID.talanton]? = some 5000000000) :
    ChainState.validateOutputs (UInt64.ofNat (count + 1) + 1) supply
      (ChainState.getCoinbaseOutputs fillerCoinbase).toList = some true := by
  have next : UInt64.ofNat (count + 1) + 1 = UInt64.ofNat (count + 2) := (UInt64.ofNat_add _ 1).symm
  have paid : (ChainState.getCoinbaseOutputs fillerCoinbase).toList = [(.talanton, 0)] :=
    filler_rewards
  have allowed := reward_allowed (count + 2) (by omega)
  rw [paid, next, ChainState.validateOutputs, allowed, stored]
  rfl

theorem filler_isValid {count : Nat} (few : count < 100) :
    (filler (tip count).digest).isValid = true := by
  have root : (filler (tip count).digest).calculateMerkleRoot = fillerID := filler_getTxID
  have coinbaseValid : fillerCoinbase.isValid = true := by decide
  refine Block.isValid_iff.mpr ⟨rfl, ?_, root, ?_⟩
  · intro tx member
    obtain rfl : tx = fillerCoinbase := List.mem_singleton.mp member
    exact coinbaseValid
  · have hash : (filler (tip count).digest).header.getHash = (tip (count + 1)).digest :=
      getHash_filler count
    rw [BlockHeader.meetsDifficultyTarget, hash]
    exact tip_works few

theorem funding_valid : start.chainState.validateBlock funding = some true := by
  refine ChainState.validateBlock_eq_true.mpr
    ⟨BlockValidator.DoubleSpend.funding_valid, rfl, fundingCoinbase, [], rfl, ?_⟩
  decide +kernel

theorem funding_matured (secp : Secp256k1) :
    Matured secp 0 (start.validateAndApplyBlock secp funding).2 := by
  have accepted := coinbase_block_accepted secp InStep.fresh (by decide) funding_valid rfl
  have next := step_accepted accepted
  obtain ⟨utxoSet, mempool⟩ := accepted_block next
  have chainState := accepted_block_chainState next rfl
  refine ⟨⟨_, .step .start next⟩, step_inStep LevelDB.memory_documented InStep.fresh next.1, ?_, ?_,
    ?_, ?_, ?_⟩
  · rw [chainState]
    rfl
  · rw [chainState, tip]
    exact funding_getHash
  · have paid : (adjustAll (· + ·) 0 initialSupply
        (ChainState.getCoinbaseOutputs fundingCoinbase))[AssetID.talanton]? = some 5000000000 := by
      decide +kernel
    rw [chainState]
    exact paid
  · have stored : UTXOSet.getCoin (applyUpdates ∅ (blockUpdates 1 funding.transactions))
        ⟨fundingID, 0⟩ = some coin := by
      change UTXOSet.getCoin (applyUpdates ∅ (createUpdates fundingCoinbase 1 true)) _ = _
      rw [createUpdates_single rfl, funding_getTxID]
      exact Std.ExtTreeMap.getElem?_insert_self
    rw [utxoSet]
    exact stored
  · rw [mempool]
    exact removeTransactions_fresh _

theorem Matured.valid_filler {secp : Secp256k1} {count : Nat} {node : Node .memory}
    (matured : Matured secp count node) (few : count < 100) :
    node.chainState.validateBlock (filler (tip count).digest) = some true := by
  refine ChainState.validateBlock_eq_true.mpr ⟨filler_isValid few, ?_, fillerCoinbase, [], rfl, ?_⟩
  · rw [if_neg (matured.low few.le).2, matured.tipHash]
    rfl
  · rw [matured.height]
    exact filler_outputs (by omega) matured.supply

theorem Matured.filler {secp : Secp256k1} {count : Nat} {node : Node .memory}
    (matured : Matured secp count node) (few : count < 100) :
    ∃ after, Matured secp (count + 1) after := by
  have accepted := coinbase_block_accepted secp matured.inStep (matured.low few.le).1
    (matured.valid_filler few) rfl
  have next := step_accepted accepted
  obtain ⟨utxoSet, mempool⟩ := accepted_block next
  have chainState := accepted_block_chainState next rfl
  obtain ⟨calls, run⟩ := matured.reached
  refine ⟨_, ⟨_, run.step next⟩, step_inStep LevelDB.memory_documented matured.inStep next.1, ?_, ?_,
    ?_, ?_, ?_⟩
  · rw [chainState, matured.height]
    exact (UInt64.ofNat_add _ 1).symm
  · rw [chainState]
    exact getHash_filler count
  · have paid : (ChainState.getCoinbaseOutputs fillerCoinbase).toList = [(.talanton, 0)] :=
      filler_rewards
    have before : node.chainState.totalSupply.getD AssetID.talanton 0 = 5000000000 := by
      rw [Std.ExtTreeMap.getD_eq_getD_getElem?, matured.supply]
      rfl
    rw [chainState]
    dsimp only
    rw [adjustAll, paid, List.foldl_cons, List.foldl_nil, before, Std.ExtTreeMap.getElem?_insert_self]
    rfl
  · have untouched := filler_keeps_funding (node.chain.height + 1)
    have updates : blockUpdates (node.chain.height + 1)
        (MaturedCoin.filler (tip count).digest).transactions =
          createUpdates fillerCoinbase (node.chain.height + 1) true := List.append_nil _
    rw [utxoSet, updates, UTXOSet.getCoin, getElem?_applyUpdates, untouched]
    exact matured.found
  · rw [mempool, matured.mempool]
    exact removeTransactions_fresh _

theorem matured_exists (secp : Secp256k1) {count : Nat} (few : count ≤ 100) :
    ∃ node, Matured secp count node := by
  induction count with
  | zero => exact ⟨_, funding_matured secp⟩
  | succ count ih =>
      obtain ⟨node, matured⟩ := ih (by omega)
      exact matured.filler few

/-- A block that spends the coin. -/
def spendBlock (previous : SHA256.State) : Block :=
  Sample.block previous.digest
    (.ofNat 32 0x99d22a17512e0ae7b421105ee52a524acee55f72c0667eb1a7f28cf3095493cc)
    [fillerCoinbase, spend]

theorem spendBlock_isValid {previous : SHA256.State}
    (works : (spendBlock previous).header.meetsDifficultyTarget = true) :
    (spendBlock previous).isValid = true := by
  have root : (spendBlock previous).calculateMerkleRoot = leftNode := by
    change pairRoot MerkleTree.hashNodes zeroHash [fillerCoinbase.getTxID, spend.getTxID] = _
    simp [filler_getTxID, spend_getTxID, pairRoot, buildRoot, nextLevel, levelPairs, left_hash]
  have valid : ∀ tx ∈ [fillerCoinbase, spend], tx.isValid = true := by decide
  exact Block.isValid_iff.mpr ⟨rfl, valid, root, works⟩

section SpendBlock

variable {secp : Secp256k1} {count : Nat} {node : Node .memory}

theorem Matured.chain_height (matured : Matured secp count node) :
    node.chain.height = UInt32.ofNat (count + 1) := by
  rw [matured.inStep.height, matured.height]
  apply UInt32.toNat_inj.mp
  simp only [UInt64.toNat_toUInt32, UInt64.toNat_ofNat', UInt32.toNat_ofNat']
  omega

theorem Matured.valid_spendBlock (matured : Matured secp count node) (few : count ≤ 100)
    (isValid : (spendBlock (tip count)).isValid = true) :
    node.chainState.validateBlock (spendBlock (tip count)) = some true := by
  refine ChainState.validateBlock_eq_true.mpr ⟨isValid, ?_, fillerCoinbase, [spend], rfl, ?_⟩
  · rw [if_neg (matured.low few).2, matured.tipHash]
    rfl
  · rw [matured.height]
    exact filler_outputs (by omega) matured.supply

/-- The coin is there when the spend is reached. -/
theorem Matured.coin_reached (matured : Matured secp count node) :
    UTXOSet.getCoin (node.chain.withCoinbase fillerCoinbase) ⟨fundingID, 0⟩ = some coin := by
  rw [Chain.withCoinbase, UTXOSet.addOutputs_eq, UTXOSet.getCoin, getElem?_applyUpdates,
    filler_keeps_funding]
  exact matured.found

theorem Matured.spendBlock_connects (matured : Matured secp count node) (few : count ≤ 100)
    (many : 99 ≤ count) (isValid : (spendBlock (tip count)).isValid = true) :
    (node.chain.connectBlock (spendBlock (tip count)) .empty).1 = true := by
  have passed := passesChecks_of_valid matured.inStep (matured.low few).1
    (matured.valid_spendBlock few isValid)
  have mature : node.chain.height + 1 ≥ 101 := by
    rw [matured.chain_height, ge_iff_le, UInt32.le_iff_toNat_le, UInt32.toNat_add,
      UInt32.toNat_ofNat']
    simp only [UInt32.reduceToNat]
    omega
  exact (BlockValidator.connectBlock_true_iff .empty rfl passed).mpr
    ⟨_, _, .cons (spend_connects matured.coin_reached mature) .nil⟩

end SpendBlock

end MaturedCoin

/-! The coinbase is spent at the first height that `ConnectBlock` allows. -/
namespace EarlySpend

open BlockValidator.DoubleSpend (fillerCoinbase fundingID library spend spend_signed)
open MaturedCoin (Matured spendBlock)

def block : Block := spendBlock MaturedCoin.tip99

theorem block_isValid : block.isValid = true := by
  refine MaturedCoin.spendBlock_isValid ?_
  rw [BlockHeader.meetsDifficultyTarget, BlockHeader.getHash, SHA256d.hash256d_eq_words]
  decide +kernel

theorem block_eq : block = spendBlock (MaturedCoin.tip 99) := by
  rw [MaturedCoin.tip_99, block]

theorem block_valid {secp : Secp256k1} {node : Node .memory} (matured : Matured secp 99 node) :
    node.chainState.validateBlock block = some true := by
  rw [block_eq]
  exact matured.valid_spendBlock (by decide) (block_eq ▸ block_isValid)

theorem block_connects {secp : Secp256k1} {node : Node .memory} (matured : Matured secp 99 node) :
    (node.chain.connectBlock block .empty).1 = true := by
  rw [block_eq]
  exact matured.spendBlock_connects (by decide) (Nat.le_refl _) (block_eq ▸ block_isValid)

theorem block_signed {node : Node .memory} (matured : Matured library 99 node) :
    SignedWhenReached library node.chain block := by
  intro coinbase rest listed before tx later split
  cases listed
  obtain ⟨rfl, same⟩ : before = [] ∧ [spend] = tx :: later := by
    cases before with
    | nil => exact ⟨rfl, split⟩
    | cons first others => simp at split
  cases same
  exact spend_signed matured.coin_reached

theorem block_spends_younger {secp : Secp256k1} {node : Node .memory}
    (matured : Matured secp 99 node) : ¬ SpendsOlderCoins secp node.chain block := by
  intro older
  obtain ⟨spendable, _⟩ := older fillerCoinbase [spend] rfl [] spend [] rfl
  obtain ⟨found, isFound, isSpendable⟩ := spendable ⟨fundingID, 0⟩ List.mem_cons_self
  rw [matured.found] at isFound
  obtain rfl := Option.some.inj isFound
  rw [matured.chain_height] at isSpendable
  exact absurd isSpendable (by decide)

end EarlySpend

end Node

end Parthenon
