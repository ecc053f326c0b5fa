import Parthenon.Chainstate.Soundness
import Parthenon.Crypto.Sha256Laws
import Parthenon.Validation.Validators

namespace Parthenon.Validation

open Parthenon.Library Parthenon.Crypto Parthenon.Primitives Parthenon.Consensus
open Parthenon.Chainstate

/-! # Validating a block and connecting it

`ValidateBlock` holds every transaction of a block against the set before the
block, `ConnectBlock` against the set the earlier transactions leave.  The two
agree on a transaction when no earlier one spends an outpoint of it: then it
meets the coins of the set before the block, except where an output of the block
was stored over one.
-/

namespace BlockValidator

/-- No outpoint is spent by two of the transactions. -/
def SpendsApart (txs : List Transaction) : Prop :=
  txs.Pairwise fun earlier later => ∀ outpoint ∈ earlier.prevouts, outpoint ∉ later.prevouts

/-- Every input refers to a coin that is there and spendable. -/
def InputsSpendable (set : UTXOSet) (height : UInt32) (tx : Transaction) : Prop :=
  ∀ outpoint ∈ tx.prevouts, ∃ coin, set.getCoin outpoint = some coin ∧ coin.isSpendable height = true

/-- The set after the transactions were applied in order. -/
def reachedSet (height : UInt32) (set : UTXOSet) (before : List Transaction) : UTXOSet :=
  before.foldl (fun set tx => (set.spendInputs tx).addOutputs tx height false) set

/-- The set with the outputs of the transactions stored and none of their inputs spent. -/
def overlaidSet (height : UInt32) (set : UTXOSet) (before : List Transaction) : UTXOSet :=
  before.foldl (fun set tx => set.addOutputs tx height false) set

/-- No two transactions spend one outpoint, and each finds its inputs when it is reached. -/
def ConflictFree (chain : Chain) (block : Block) : Prop :=
  ∀ coinbase rest, block.transactions = coinbase :: rest → SpendsApart rest ∧
    ∀ before tx later, rest = before ++ tx :: later →
      InputsSpendable (reachedSet (chain.height + 1) (chain.withCoinbase coinbase) before)
        (chain.height + 1) tx

/-- No two transactions spend one outpoint, and where outputs of the block are
stored over coins it spends later, those stay spendable and worth enough. -/
def Independent (chain : Chain) (block : Block) : Prop :=
  ∀ coinbase rest, block.transactions = coinbase :: rest → SpendsApart rest ∧
    ∀ before tx later, rest = before ++ tx :: later →
      InputsSpendable (overlaidSet (chain.height + 1) (chain.withCoinbase coinbase) before)
        (chain.height + 1) tx ∧
      ((∀ tx ∈ block.transactions, tx.isValid = true) →
        (Chain.validateTransaction
          (overlaidSet (chain.height + 1) (chain.withCoinbase coinbase) before) tx
          (chain.height + 1)).isSome = true)

theorem getCoin_processed {left right : UTXOSet} {tx : Transaction} {height : UInt32}
    {outpoint : OutPoint} (same : left.getCoin outpoint = right.getCoin outpoint)
    (unspent : outpoint ∉ tx.prevouts) :
    ((left.spendInputs tx).addOutputs tx height false).getCoin outpoint =
      (right.addOutputs tx height false).getCoin outpoint := by
  have untouched : lastWrite (spendUpdates tx) outpoint = none := by
    apply lastWrite_eq_none.mpr
    intro update member sameKey
    obtain ⟨spent, spends, rfl⟩ := List.mem_map.mp member
    exact unspent (sameKey ▸ spends)
  have kept : (left.spendInputs tx).getCoin outpoint = right.getCoin outpoint := by
    rw [UTXOSet.spendInputs_eq, UTXOSet.getCoin, getElem?_applyUpdates, untouched]
    exact same
  rw [UTXOSet.addOutputs_eq, UTXOSet.addOutputs_eq, UTXOSet.getCoin, UTXOSet.getCoin,
    getElem?_applyUpdates, getElem?_applyUpdates]
  exact congrArg _ kept

theorem getCoin_reachedSet {height : UInt32} {before : List Transaction} {outpoint : OutPoint}
    (unspent : ∀ tx ∈ before, outpoint ∉ tx.prevouts) {left right : UTXOSet}
    (same : left.getCoin outpoint = right.getCoin outpoint) :
    (reachedSet height left before).getCoin outpoint =
      (overlaidSet height right before).getCoin outpoint := by
  induction before generalizing left right with
  | nil => exact same
  | cons tx rest ih =>
      obtain ⟨here, later⟩ := List.forall_mem_cons.mp unspent
      exact ih later (getCoin_processed same here)

theorem inputCoins_congr {left right : UTXOSet} {height : UInt32} {outpoints : List OutPoint}
    (same : ∀ outpoint ∈ outpoints, left.getCoin outpoint = right.getCoin outpoint) :
    Chain.inputCoins left height outpoints = Chain.inputCoins right height outpoints := by
  induction outpoints with
  | nil => rfl
  | cons outpoint rest ih =>
      obtain ⟨here, later⟩ := List.forall_mem_cons.mp same
      rw [Chain.inputCoins, Chain.inputCoins, here, ih later]

theorem validateTransaction_congr {left right : UTXOSet} {tx : Transaction} {height : UInt32}
    (same : ∀ outpoint ∈ tx.prevouts, left.getCoin outpoint = right.getCoin outpoint) :
    Chain.validateTransaction left tx height = Chain.validateTransaction right tx height := by
  rw [Chain.validateTransaction, Chain.validateTransaction, inputCoins_congr same]

theorem inputsSpendable_congr {left right : UTXOSet} {tx : Transaction} {height : UInt32}
    (same : ∀ outpoint ∈ tx.prevouts, left.getCoin outpoint = right.getCoin outpoint)
    (spendable : InputsSpendable left height tx) : InputsSpendable right height tx := by
  intro outpoint member
  obtain ⟨coin, found, matured⟩ := spendable outpoint member
  exact ⟨coin, (same outpoint member).symm.trans found, matured⟩

/-- Where transactions spend apart, one meets the coins of the overlaid set. -/
theorem reached_agrees (height : UInt32) (set : UTXOSet) {before later : List Transaction}
    {tx : Transaction} (apart : SpendsApart (before ++ tx :: later)) :
    ∀ outpoint ∈ tx.prevouts, (reachedSet height set before).getCoin outpoint =
      (overlaidSet height set before).getCoin outpoint := by
  intro outpoint member
  have unspent : ∀ earlier ∈ before, outpoint ∉ earlier.prevouts := by
    intro earlier listed spends
    have disjoint := (List.pairwise_append.mp apart).2.2 earlier listed tx List.mem_cons_self
    exact disjoint outpoint spends member
  exact getCoin_reachedSet unspent rfl

theorem connects_reached {height : UInt32} {set after : UTXOSet} {txs : List Transaction}
    {undos : List (List Coin)} (connects : Chain.Connects height set txs undos after) :
    after = reachedSet height set txs := by
  induction connects with
  | nil => rfl
  | cons _ _ ih => exact ih

/-- A list of transactions connects when each is valid in the set it meets. -/
theorem connects_iff {height : UInt32} {set : UTXOSet} {txs : List Transaction} :
    (∃ undos after, Chain.Connects height set txs undos after) ↔
      ∀ before tx later, txs = before ++ tx :: later →
        (Chain.validateTransaction (reachedSet height set before) tx height).isSome = true := by
  induction txs generalizing set with
  | nil =>
      constructor
      · intro _ before tx later split
        cases before with
        | nil => cases split
        | cons first others => cases split
      · intro _
        exact ⟨[], set, .nil⟩
  | cons first rest ih =>
      constructor
      · intro connects before tx later split
        obtain ⟨_, after, connects⟩ := connects
        cases connects with
        | cons valid tail =>
            cases before with
            | nil =>
                cases split
                change (Chain.validateTransaction set first height).isSome = true
                rw [valid]
                rfl
            | cons head others =>
                cases split
                exact ih.mp ⟨_, after, tail⟩ others tx later rfl
      · intro each
        have here : (Chain.validateTransaction set first height).isSome = true :=
          each [] first rest rfl
        obtain ⟨coins, valid⟩ := Option.isSome_iff_exists.mp here
        have later : ∀ before tx later, rest = before ++ tx :: later →
            (Chain.validateTransaction (reachedSet height
              ((set.spendInputs first).addOutputs first height false) before) tx height).isSome =
              true := by
          intro before tx later split
          exact each (first :: before) tx later (by rw [split, List.cons_append])
        obtain ⟨undos, after, tail⟩ := ih.mpr later
        exact ⟨coins :: undos, after, .cons valid tail⟩

theorem connectBlock_true_iff {chain : Chain} {block : Block} (undo : BlockUndo)
    {coinbase : Transaction} {rest : List Transaction}
    (listed : block.transactions = coinbase :: rest) (passed : chain.passesChecks block = true) :
    (chain.connectBlock block undo).1 = true ↔ ∃ undos after,
      Chain.Connects (chain.height + 1) (chain.withCoinbase coinbase) rest undos after := by
  rcases Chain.connectBlock_cases chain block undo with
    ⟨refused, _⟩ | ⟨_, other, before, failing, later, undos, utxoSet, after, split, connects,
      invalid, _, result⟩ | ⟨_, other, others, undos, utxoSet, after, same, connects, _, result⟩
  · rw [passed] at refused
    contradiction
  · rw [listed] at split
    cases split
    rw [result]
    constructor
    · intro connected
      contradiction
    · intro whole
      have valid := connects_iff.mp whole before failing later rfl
      rw [← connects_reached connects, invalid] at valid
      contradiction
  · rw [listed] at same
    cases same
    rw [result]
    exact ⟨fun _ => ⟨undos, utxoSet, connects⟩, fun _ => rfl⟩

/-- An accepted block passes the chain's own checks once its transactions are valid. -/
theorem passesChecks_of_accepted {secp : Secp256k1} {chain : Chain} {block : Block}
    (accepted : validateBlock secp block chain.utxoSet (chain.height + 1) chain.totalSupply = .ok ())
    (valid : ∀ tx ∈ block.transactions, tx.isValid = true) : chain.passesChecks block = true := by
  obtain ⟨structural, work, rewards, _⟩ := validateBlock_ok.mp accepted
  obtain ⟨shape, root⟩ := validateStructure_ok.mp structural
  have blockValid : block.isValid = true :=
    Block.isValid_iff.mpr ⟨shape, valid, root, ensure_ok.mp work⟩
  cases listed : block.transactions with
  | nil =>
      rw [listed] at shape
      cases shape
  | cons coinbase rest =>
      rw [validateCoinbase, listed] at rewards
      rw [Chain.passesChecks_cons blockValid listed]
      exact (validateRewards_ok fun _ => rfl).mp rewards

namespace DoubleSpend

/-- An x-only public key: the x coordinate of the generator. -/
def key : PublicKey := .ofNat 32 0x9817F8165B81F259D928CE2DDBFC9B02070B87CE9562A055ACBBDCF97E66BE79

def fundingCoinbase : Transaction :=
  Sample.coinbase [Sample.output 5000000000 (.ofArray key ByteVector.hash_small)]

def fundingID : Hash :=
  .ofNat 32 0xd028cdf9c8c32ab1e83aa6c870093211cce18209869b390bbad1e59eb5d5a25c

def funding : Block := Sample.block zeroHash fundingID [fundingCoinbase]

def fillerCoinbase : Transaction := Sample.coinbase [Sample.output 0 ⟨[1], ByteVector.one_fits⟩]

def fillerID : Hash :=
  .ofNat 32 0xcc8d66870bd37a29ff0c4045b7715e462cf01491bdabcc4dfb060e395912ae71

/-- A block of the coinbase alone, connected over and over while the funding coin matures. -/
def filler : Block := Sample.block zeroHash fillerID [fillerCoinbase]

def signature : Signature := ⟨List.replicate 64 1, rfl⟩

def spend : Transaction :=
  Sample.spend ⟨fundingID, 0⟩ (.ofArray signature ByteVector.signature_small)
    [Sample.output 5000000000 ⟨[1], ByteVector.one_fits⟩]

def block : Block :=
  Sample.block zeroHash
    (.ofNat 32 0xd8bb3c718132e632e80a4a1b8a997fae6a51b9690465f69d16a2426e79587c39)
    [fillerCoinbase, spend, spend]

/-- A library that takes the signature for the message that the spend commits to. -/
def library : Secp256k1 where
  Keypair := Empty
  XonlyPubkey := PublicKey
  ecSeckeyVerify _ := false
  keypairCreate _ := none
  keypairXonlyPub := nofun
  xonlyPubkeySerialize pubkey := some pubkey
  xonlyPubkeyParse pubkey := some pubkey
  schnorrsigSign32 _ := nofun
  schnorrsigVerify given message pubkey := given = signature && pubkey = key &&
    message = .ofNat 32 0x452567079a42ea7cde76c68b024221ebe19b572756f4dccdeb75ede9e02f0cc4

theorem library_documented : library.Documented where
  parse_serialize _ _ serialized := serialized.symm
  verify_sign := nofun
  message_unique := nofun

def coin : Coin where
  output := Sample.output 5000000000 (.ofArray key ByteVector.hash_small)
  height := 1
  isCoinbase := true

/-- The chain holds the funding coin under a number of filler blocks. -/
structure Filled (count : Nat) (chain : Chain) : Prop where
  height : chain.height = UInt32.ofNat (count + 1)
  found : chain.utxoSet.getCoin ⟨fundingID, 0⟩ = some coin
  supply : chain.totalSupply.getD .talanton 0 = 5000000000

def spendID : Hash :=
  .ofNat 32 0xee8b2eb0f238d9e60a3c6965629d05b507e8be69748ae1338e789fc0db1d94f3

/-- The node over the filler coinbase and a spend. -/
def leftNode : Hash :=
  .ofNat 32 0x99d22a17512e0ae7b421105ee52a524acee55f72c0667eb1a7f28cf3095493cc

/-- The node over two spends. -/
def rightNode : Hash :=
  .ofNat 32 0x3932a5cf982237239b2d6b8a14bb769d2fa5e435e7bb2de79c05eb66933f3538

def fundingHash : Hash :=
  .ofNat 32 0x0d7734e686ab281bf4e2a078670578a8cf05acad9dfdf6e38cda9d892454ed8b

/-- What is hashed here, evaluated on words at once. -/
theorem hashes :
    fundingCoinbase.getTxID = fundingID ∧ fillerCoinbase.getTxID = fillerID ∧
      spend.getTxID = spendID ∧ MerkleTree.hashNodes fillerID spendID = leftNode ∧
      MerkleTree.hashNodes spendID spendID = rightNode ∧
      MerkleTree.hashNodes leftNode rightNode = block.header.merkleRoot ∧
      funding.header.getHash = fundingHash ∧
      Difficulty.checkProofOfWork fundingHash funding.header.bits = true ∧
      filler.header.meetsDifficultyTarget = true ∧ block.header.meetsDifficultyTarget = true ∧
      spend.getSignatureHash 0 =
        .ofNat 32 0x452567079a42ea7cde76c68b024221ebe19b572756f4dccdeb75ede9e02f0cc4 := by
  unfold BlockHeader.meetsDifficultyTarget MerkleTree.hashNodes Transaction.getTxID
    BlockHeader.getHash Transaction.getSignatureHash
  simp only [SHA256d.hash256d_eq_words, SHA256.hash256_eq_wordHash]
  decide +kernel

theorem funding_getTxID : fundingCoinbase.getTxID = fundingID := hashes.1

theorem filler_getTxID : fillerCoinbase.getTxID = fillerID := hashes.2.1

theorem spend_getTxID : spend.getTxID = spendID := hashes.2.2.1

theorem left_hash : MerkleTree.hashNodes fillerID spendID = leftNode := hashes.2.2.2.1

theorem block_root : block.calculateMerkleRoot = block.header.merkleRoot := by
  obtain ⟨-, filler, spend, left, right, root, -⟩ := hashes
  change pairRoot MerkleTree.hashNodes zeroHash
    [fillerCoinbase.getTxID, DoubleSpend.spend.getTxID, DoubleSpend.spend.getTxID] = _
  simp [filler, spend, pairRoot, buildRoot, nextLevel, levelPairs, left, right, root]

theorem funding_getHash : funding.getHash = fundingHash := hashes.2.2.2.2.2.2.1

theorem funding_work : funding.header.meetsDifficultyTarget = true := by
  obtain ⟨-, -, -, -, -, -, hash, works, -⟩ := hashes
  rw [BlockHeader.meetsDifficultyTarget, hash]
  exact works

theorem filler_work : filler.header.meetsDifficultyTarget = true := hashes.2.2.2.2.2.2.2.2.1

theorem block_work : validatePoW block = .ok () := ensure_ok.mpr hashes.2.2.2.2.2.2.2.2.2.1

theorem spend_getSignatureHash : spend.getSignatureHash 0 =
    .ofNat 32 0x452567079a42ea7cde76c68b024221ebe19b572756f4dccdeb75ede9e02f0cc4 :=
  hashes.2.2.2.2.2.2.2.2.2.2

theorem funding_valid : funding.isValid = true :=
  Block.isValid_iff.mpr ⟨by decide, by decide, funding_getTxID, funding_work⟩

theorem filler_valid : filler.isValid = true :=
  Block.isValid_iff.mpr ⟨by decide, by decide, filler_getTxID, filler_work⟩

/-- The reward of the funding block is allowed and becomes the supply. -/
theorem funding_rewards : validateCoinbase funding 1 ∅ = .ok () ∧
    (Chain.checkRewards 1 (AmountMap.sum (fundingCoinbase.outputs.map TxOutput.value)).toList ∅).1 =
      true ∧
    (Chain.updateSupply ∅ fundingCoinbase true).getD .talanton 0 = 5000000000 := by decide +kernel

theorem funding_passes : Chain.fresh.passesChecks funding = true := by
  rw [Chain.passesChecks_cons funding_valid rfl]
  exact funding_rewards.2.1

theorem funding_connected : (Chain.fresh.connectBlock funding .empty).1 = true :=
  (Chain.connectBlock_coinbase rfl funding_passes).1

theorem createUpdates_single {tx : Transaction} {output : TxOutput} (outputs : tx.outputs = [output])
    (height : UInt32) (isCoinbase : Bool) : createUpdates tx height isCoinbase =
      [(⟨tx.getTxID, 0⟩, some { output, height, isCoinbase })] := by
  rw [createUpdates, createdCoins, outputs]
  rfl

theorem funding_filled : Filled 0 (Chain.fresh.connectBlock funding .empty).2.1 := by
  obtain ⟨utxoSet, height, _, _, supply⟩ := (Chain.connectBlock_coinbase rfl funding_passes).2
  refine ⟨height, ?_, ?_⟩
  · rw [utxoSet, Chain.withCoinbase, UTXOSet.addOutputs_eq, createUpdates_single rfl, funding_getTxID]
    exact Std.ExtTreeMap.getElem?_insert_self
  · exact (supply .talanton).trans funding_rewards.2.2

theorem filler_amounts :
    (AmountMap.sum (fillerCoinbase.outputs.map TxOutput.value)).toList = [(.talanton, 0)] ∧
      (AmountMap.sum (fillerCoinbase.outputs.map TxOutput.value))[AssetID.talanton]? = some 0 := by
  decide +kernel

theorem filler_rewards :
    (AmountMap.sum (fillerCoinbase.outputs.map TxOutput.value)).toList = [(.talanton, 0)] :=
  filler_amounts.1

theorem reward_allowed : ∀ height < 104,
    Issuance.isValidBlockReward (UInt64.ofNat height) .talanton 0 = true := by decide +kernel

theorem filler_keeps_funding (height : UInt32) :
    lastWrite (createUpdates fillerCoinbase height true) ⟨fundingID, 0⟩ = none := by
  rw [createUpdates_single rfl, filler_getTxID]
  apply lastWrite_eq_none.mpr
  intro update member same
  obtain rfl := List.mem_singleton.mp member
  have different : fillerID ≠ fundingID := by decide
  exact different (congrArg OutPoint.txid same)

theorem reward_accepted {count : Nat} {chain : Chain} (filled : Filled count chain)
    (few : count < 100) : (Chain.checkRewards (chain.height + 1)
      (AmountMap.sum (fillerCoinbase.outputs.map TxOutput.value)).toList chain.totalSupply).1 =
        true := by
  have next : (chain.height + 1).toUInt64 = UInt64.ofNat (count + 2) := by
    apply UInt64.toNat_inj.mp
    rw [filled.height, UInt32.toNat_toUInt64, UInt32.toNat_add, UInt32.toNat_ofNat',
      UInt64.toNat_ofNat']
    simp only [UInt32.reduceToNat]
    omega
  have allowed := reward_allowed (count + 2) (by omega)
  rw [filler_rewards, Chain.checkRewards, next, allowed]
  simp only [Bool.not_true, Bool.false_eq_true, if_false, Chain.insertIfNew_zero_getD,
    filled.supply]
  rfl

theorem filler_passes {count : Nat} {chain : Chain} (filled : Filled count chain)
    (few : count < 100) : chain.passesChecks filler = true := by
  rw [Chain.passesChecks_cons filler_valid rfl]
  exact reward_accepted filled few

theorem filler_step {count : Nat} {chain : Chain} (filled : Filled count chain)
    (few : count < 100) : Filled (count + 1) (chain.connectBlock filler .empty).2.1 := by
  obtain ⟨utxoAfter, heightAfter, _, _, supplyAfter⟩ :=
    (Chain.connectBlock_coinbase rfl (filler_passes filled few)).2
  refine ⟨?_, ?_, ?_⟩
  · rw [heightAfter, filled.height, UInt32.ofNat_add (count + 1) 1]
    rfl
  · rw [utxoAfter, Chain.withCoinbase, UTXOSet.addOutputs_eq, UTXOSet.getCoin,
      getElem?_applyUpdates, filler_keeps_funding]
    exact filled.found
  · have isCoinbase : fillerCoinbase.isCoinbase = true := by decide
    refine (supplyAfter .talanton).trans ?_
    rw [Chain.updateSupply, isCoinbase]
    simp only [Bool.not_true, Bool.false_eq_true, if_false, if_true, getD_adjustAll,
      filler_amounts.2, filled.supply]
    rfl

/-- Connecting the blocks one after another reaches a chain with the coin. -/
theorem filled_reachable (count : Nat) (few : count ≤ 100) : ∃ calls history,
    Run ChainHistory.Step ChainHistory.fresh calls history ∧ Filled count history.chain := by
  induction count with
  | zero =>
      have next := ChainHistory.step_connect ChainHistory.fresh funding
      have filled : Filled 0 (ChainHistory.fresh.apply (.connect funding)).chain := by
        have fresh : ChainHistory.fresh.chain = Chain.fresh := rfl
        rw [ChainHistory.apply_connect_chain, fresh]
        exact funding_filled
      exact ⟨_, _, .step .start next, filled⟩
  | succ count ih =>
      obtain ⟨calls, history, run, filled⟩ := ih (by omega)
      have next := ChainHistory.step_connect history filler
      have filled : Filled (count + 1) (history.apply (.connect filler)).chain := by
        rw [ChainHistory.apply_connect_chain]
        exact filler_step filled (by omega)
      exact ⟨_, _, run.step next, filled⟩

theorem block_structure : validateStructure block = .ok () :=
  validateStructure_ok.mpr ⟨by decide, block_root⟩

theorem spend_structure : TransactionValidator.validateStructure spend = .ok () := by decide

theorem spend_covered : (AmountMap.sum ([coin].map (·.output.value))).covers
    (AmountMap.sum (spend.outputs.map TxOutput.value)) = true := by decide +kernel

theorem spend_connects {utxoSet : UTXOSet} {height : UInt32}
    (found : utxoSet.getCoin ⟨fundingID, 0⟩ = some coin) (mature : height ≥ 101) :
    Chain.validateTransaction utxoSet spend height = some [coin] := by
  have ordinary : spend.isCoinbase = false := by decide
  have spendable : coin.isSpendable height = true := by
    simp only [Coin.isSpendable, coin, Bool.not_true, Bool.false_or]
    exact decide_eq_true mature
  have coins : Chain.inputCoins utxoSet height spend.prevouts = some [coin] := by
    change Chain.inputCoins utxoSet height [⟨fundingID, 0⟩] = some [coin]
    simp only [Chain.inputCoins, found, spendable, if_true, Option.map_some]
  exact (Chain.validateTransaction_eq_some ordinary).mpr ⟨coins, spend_covered⟩

theorem spend_signed {utxoSet : UTXOSet} (found : utxoSet.getCoin ⟨fundingID, 0⟩ = some coin) :
    TransactionValidator.validateSignatures library spend utxoSet = .ok () :=
  TransactionValidator.validateSignatures_single rfl found (FixedBytes.ofBytes?_bytes key)
    (FixedBytes.ofBytes?_bytes signature) rfl (by rw [spend_getSignatureHash]; rfl)

theorem spend_valid {utxoSet : UTXOSet} {height : UInt32}
    (found : utxoSet.getCoin ⟨fundingID, 0⟩ = some coin) (mature : height ≥ 101) :
    validateTransaction library utxoSet height spend = .ok () := by
  have accepted : (Chain.validateTransaction utxoSet spend height).isSome = true := by
    rw [spend_connects found mature]
    rfl
  exact validateTransaction_ok.mpr ⟨spend_structure,
    TransactionValidator.validateAgainstUTXO_ok_iff.mpr accepted, spend_signed found⟩

theorem block_accepted {chain : Chain} (filled : Filled 99 chain) :
    validateBlock library block chain.utxoSet (chain.height + 1) chain.totalSupply = .ok () := by
  refine validateBlock_ok.mpr ⟨block_structure, block_work, ?_, ?_⟩
  · exact (validateRewards_ok fun _ => rfl).mpr (reward_accepted filled (by decide))
  · have mature : chain.height + 1 ≥ 101 := by
      rw [filled.height]
      decide
    intro tx member
    change tx ∈ [spend, spend] at member
    obtain rfl : tx = spend := by simpa using member
    exact spend_valid filled.found mature

end DoubleSpend

theorem funding_accepted : validateBlock DoubleSpend.library DoubleSpend.funding
    Chain.fresh.utxoSet (Chain.fresh.height + 1) Chain.fresh.totalSupply = .ok () := by
  refine validateBlock_ok.mpr ⟨validateStructure_ok.mpr ⟨rfl, DoubleSpend.funding_getTxID⟩,
    ensure_ok.mpr DoubleSpend.funding_work, DoubleSpend.funding_rewards.1, nofun⟩

end BlockValidator

end Parthenon.Validation
