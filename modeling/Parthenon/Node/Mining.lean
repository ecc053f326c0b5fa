import Parthenon.Consensus.Target
import Parthenon.Node.Agreement

namespace Parthenon

open Library Crypto Primitives Consensus Chainstate Storage Validation

/-! # The miner

A template is made from the height of the chain state, a nonce is searched for it, and
what is found goes through the node like any other block, whatever the node has seen in
the meantime.
-/

structure BlockTemplate where
  block : Block
  totalFees : UInt64
  coinbaseRewards : List AssetAmount
  height : UInt32
  target : Hash

def BlockTemplate.withNonce (template : BlockTemplate) (nonce : UInt32) : Block :=
  { template.block with header.nonce := nonce }

structure Miner where
  coinbasePubkey : ByteVector
  isMining : Bool
  totalHashes : UInt64

namespace Miner

def new (coinbasePubkey : ByteVector) : Miner :=
  { coinbasePubkey, isMining := false, totalHashes := 0 }

/-- The miner has no mempool to select from. -/
def selectTransactions (_maxCount : Nat) : List Transaction := []

def calculateFees (transactions : List Transaction) : AmountMap :=
  (transactions.flatMap fun tx => tx.outputs.map TxOutput.value).foldl AmountMap.add initialSupply

def createCoinbaseTransaction (miner : Miner) (height : UInt32) (rewards : List AssetAmount) :
    Transaction where
  version := 1
  inputs :=
    [{ prevout := ⟨zeroHash, coinbaseVoutIndex⟩
       signatureScript := ⟨littleEndian 4 height.toNat, by rw [littleEndian_length]; decide⟩
       sequence := 0xFFFFFFFF }]
  outputs := (rewards.filter fun reward => 0 < reward.amount).map fun reward =>
    { value := reward, pubkeyScript := miner.coinbasePubkey }
  locktime := 0

/-- Nodes are hashed once here, and twice in the tree of the block. -/
def computeMerkleRoot (transactions : List Transaction) : Hash :=
  pairRoot (fun left right => ((SHA256.reset.write left.bytes).write right.bytes).finalize.1) zeroHash
    (transactions.map Transaction.getTxID)

/-- The clock reads `time`. -/
def createBlockTemplate (miner : Miner) (chainState : ChainState) (time : UInt32)
    (maxTransactions : Nat) : BlockTemplate :=
  let height := (chainState.height + 1).toUInt32
  let bits := Difficulty.getInitialBits
  let transactions := selectTransactions maxTransactions
  let fees := calculateFees transactions
  let coinbaseRewards := AssetID.native.map fun asset =>
    { asset, amount := Issuance.getBlockReward height.toUInt64 asset + fees.getD asset 0 }
  let transactions := miner.createCoinbaseTransaction height coinbaseRewards :: transactions
  { block :=
      { header :=
          { version := 1
            prevBlockHash := zeroHash
            merkleRoot := computeMerkleRoot transactions
            timestamp := time
            bits
            nonce := 0
            baseFeePerGas := 1000000000
            gasUsed := 0
            gasLimit := 30000000 }
        transactions }
    totalFees := fees.toList.foldl (fun total fee => total + fee.2) 0
    coinbaseRewards
    height
    target := Difficulty.compactToBits256 bits }

/-- The comparison starts at the first byte, the least significant one of the target. -/
def verifyProofOfWork (block : Block) (target : Hash) : Bool :=
  Difficulty.compareBytes block.getHash.bytes target.bytes < 0

/-- The mining loop, with the turns at which another thread has stopped the mining.  `none`
is a loop longer than the fuel. -/
def mineFrom (template : BlockTemplate) (maxIterations : UInt64) (stops : UInt64 → Bool) :
    Nat → UInt64 → Miner → Option (Option Block × Miner)
  | 0, _, _ => none
  | fuel + 1, i, miner =>
      if maxIterations = 0 ∨ i < maxIterations then
        if stops i then some (none, { miner with isMining := false })
        else
          let block := template.withNonce i.toUInt32
          if verifyProofOfWork block template.target then
            some (some block, { miner with isMining := false })
          else
            mineFrom template maxIterations stops fuel (i + 1)
              { miner with totalHashes := miner.totalHashes + 1 }
      else some (none, { miner with isMining := false })

def mineBlock (fuel : Nat) (stops : UInt64 → Bool) (miner : Miner) (template : BlockTemplate)
    (maxIterations : UInt64) : Option (Option Block × Miner) :=
  mineFrom template maxIterations stops fuel 0 { miner with isMining := true, totalHashes := 0 }

theorem compareBytes_neg {left right : Bytes} (sameLength : left.length = right.length) :
    Difficulty.compareBytes left right < 0 ↔
      ofLittleEndian left.reverse < ofLittleEndian right.reverse := by
  have turned : Difficulty.compareBytes right left = -Difficulty.compareBytes left right := by
    induction left generalizing right with
    | nil => cases right <;> rfl
    | cons byte rest ih =>
        cases right with
        | nil => rfl
        | cons other others =>
            rw [Difficulty.compareBytes, Difficulty.compareBytes]
            rcases Nat.lt_trichotomy byte.toNat other.toNat with less | same | more
            · have less : byte < other := UInt8.lt_iff_toNat_lt.mpr less
              rw [if_neg (UInt8.lt_asymm less), if_pos less, if_pos less]
              rfl
            · obtain rfl := UInt8.toNat_inj.mp same
              rw [if_neg (UInt8.lt_irrefl byte), if_neg (UInt8.lt_irrefl byte),
                if_neg (UInt8.lt_irrefl byte), if_neg (UInt8.lt_irrefl byte)]
              exact ih (Nat.succ.inj sameLength)
            · have more : other < byte := UInt8.lt_iff_toNat_lt.mpr more
              rw [if_pos more, if_neg (UInt8.lt_asymm more), if_pos more]
  rw [← Nat.not_le, ← Difficulty.compareBytes_nonpos sameLength.symm, turned]
  omega

theorem verifyProofOfWork_iff {block : Block} {target : Hash} :
    verifyProofOfWork block target = true ↔
      ofLittleEndian block.getHash.bytes.reverse < ofLittleEndian target.bytes.reverse := by
  rw [verifyProofOfWork, decide_eq_true_iff, compareBytes_neg]
  rw [block.getHash.length_eq, target.length_eq]

section Search

variable (maxIterations : UInt64) (stops : UInt64 → Bool)

/-- The search is let go on at a turn. -/
def Allowed (i : UInt64) : Prop := (maxIterations = 0 ∨ i < maxIterations) ∧ stops i = false

variable {maxIterations stops} {template : BlockTemplate}

theorem next_turn (i : UInt64) (turns : Nat) :
    i + UInt64.ofNat (turns + 1) = i + 1 + UInt64.ofNat turns := by
  rw [UInt64.ofNat_add, UInt64.add_comm (UInt64.ofNat turns), UInt64.add_assoc]
  rfl

/-- The search finds the first nonce that works, and finds it whenever it gets there. -/
theorem mineFrom_iff {block : Block} (i : UInt64) (miner : Miner) :
    (∃ fuel after, mineFrom template maxIterations stops fuel i miner = some (some block, after)) ↔
      ∃ turns, (∀ earlier ≤ turns, Allowed maxIterations stops (i + UInt64.ofNat earlier)) ∧
        (∀ earlier < turns, verifyProofOfWork
          (template.withNonce (i + UInt64.ofNat earlier).toUInt32) template.target = false) ∧
        verifyProofOfWork (template.withNonce (i + UInt64.ofNat turns).toUInt32) template.target =
          true ∧
        block = template.withNonce (i + UInt64.ofNat turns).toUInt32 := by
  have here (i : UInt64) : i + UInt64.ofNat 0 = i := UInt64.add_zero i
  constructor
  · rintro ⟨fuel, after, found⟩
    induction fuel generalizing i miner with
    | zero => cases found
    | succ fuel ih =>
        rw [mineFrom] at found
        split at found
        · rename_i within
          split at found
          · cases found
          · rename_i runs
            have allowed : Allowed maxIterations stops i := ⟨within, Bool.eq_false_iff.mpr runs⟩
            dsimp only at found
            split at found
            · rename_i works
              cases found
              refine ⟨0, fun earlier first => ?_, nofun, ?_, ?_⟩
              · rw [Nat.le_zero.mp first, here]
                exact allowed
              · rw [here]
                exact works
              · rw [here]
            · rename_i fails
              obtain ⟨turns, others, misses, hits, isBlock⟩ := ih (i + 1) _ found
              refine ⟨turns + 1, fun earlier before => ?_, fun earlier before => ?_, ?_, ?_⟩
              · cases earlier with
                | zero =>
                    rw [here]
                    exact allowed
                | succ earlier =>
                    rw [next_turn]
                    exact others earlier (Nat.le_of_succ_le_succ before)
              · cases earlier with
                | zero =>
                    rw [here]
                    exact Bool.eq_false_iff.mpr fails
                | succ earlier =>
                    rw [next_turn]
                    exact misses earlier (Nat.lt_of_succ_lt_succ before)
              · rw [next_turn]
                exact hits
              · rw [next_turn]
                exact isBlock
        · cases found
  · rintro ⟨turns, allowed, misses, hits, rfl⟩
    induction turns generalizing i miner with
    | zero =>
        obtain ⟨within, runs⟩ := allowed 0 (Nat.le_refl 0)
        rw [here] at within runs hits ⊢
        refine ⟨1, { miner with isMining := false }, ?_⟩
        rw [mineFrom, if_pos within, runs, if_neg Bool.false_ne_true]
        dsimp only
        rw [hits, if_pos rfl]
    | succ turns ih =>
        obtain ⟨within, runs⟩ := allowed 0 (Nat.zero_le _)
        have fails := misses 0 (Nat.succ_pos turns)
        rw [here] at within runs fails
        rw [next_turn] at hits ⊢
        have othersAllowed (earlier : Nat) (before : earlier ≤ turns) :
            Allowed maxIterations stops (i + 1 + UInt64.ofNat earlier) := by
          rw [← next_turn]
          exact allowed (earlier + 1) (Nat.succ_le_succ before)
        have othersMiss (earlier : Nat) (before : earlier < turns) : verifyProofOfWork
            (template.withNonce (i + 1 + UInt64.ofNat earlier).toUInt32) template.target = false := by
          rw [← next_turn]
          exact misses (earlier + 1) (Nat.succ_lt_succ before)
        obtain ⟨fuel, after, found⟩ := ih (i + 1) { miner with totalHashes := miner.totalHashes + 1 }
          othersAllowed othersMiss hits
        refine ⟨fuel + 1, after, ?_⟩
        rw [mineFrom, if_pos within, runs, if_neg Bool.false_ne_true]
        dsimp only
        rw [fails, if_neg Bool.false_ne_true]
        exact found

end Search

section Template

variable (key : ByteVector) (time : UInt32) (maxTransactions : Nat) (nonce : UInt32)

theorem template_target (miner : Miner) (chainState : ChainState) :
    ofLittleEndian (miner.createBlockTemplate chainState time maxTransactions).target.bytes.reverse =
      0xffff7f := by
  change ofLittleEndian (Difficulty.compactToBits256 Difficulty.getInitialBits).bytes.reverse = _
  decide

/-- The coinbase of a template that a fresh chain state is asked for. -/
def firstCoinbase : Transaction :=
  (new key).createCoinbaseTransaction 1
    [⟨.talanton, 5000000000⟩, ⟨.drachma, 0⟩, ⟨.obolos, 0⟩]

theorem template_transactions :
    (((new key).createBlockTemplate .fresh time maxTransactions).withNonce nonce).transactions =
      [firstCoinbase key] := by
  have rewards : (AssetID.native.map fun asset =>
      ({ asset, amount := Issuance.getBlockReward (UInt32.toUInt64 1) asset +
          (calculateFees []).getD asset 0 } : AssetAmount)) =
        [⟨.talanton, 5000000000⟩, ⟨.drachma, 0⟩, ⟨.obolos, 0⟩] := by
    decide +kernel
  rw [firstCoinbase, ← rewards]
  rfl

theorem firstCoinbase_values :
    (firstCoinbase key).outputs.map TxOutput.value = [⟨.talanton, 5000000000⟩] := rfl

theorem firstCoinbase_isValid : (firstCoinbase key).isValid = true ↔ key.bytes ≠ [] := by
  have outputs : (firstCoinbase key).outputs = [⟨⟨.talanton, 5000000000⟩, key⟩] := rfl
  have amount : AssetAmount.isValid ⟨.talanton, 5000000000⟩ = true := by decide
  rw [Transaction.isValid_iff, outputs]
  simp [TxOutput.isValid, amount, firstCoinbase, createCoinbaseTransaction, Transaction.isCoinbase]

theorem initial_target : Difficulty.targetOf Difficulty.getInitialBits = 0x7fffff * 256 ^ 29 := by
  decide

/-- The root of a coinbase alone is the same however nodes are hashed. -/
theorem template_isValid :
    (((new key).createBlockTemplate .fresh time maxTransactions).withNonce nonce).isValid = true ↔
      key.bytes ≠ [] ∧
        ofLittleEndian (((new key).createBlockTemplate .fresh time maxTransactions).withNonce
          nonce).getHash.bytes ≤ 0x7fffff * 256 ^ 29 := by
  have transactions := template_transactions key time maxTransactions nonce
  have root : (((new key).createBlockTemplate .fresh time maxTransactions).withNonce
      nonce).header.merkleRoot = (firstCoinbase key).getTxID := by
    change computeMerkleRoot (((new key).createBlockTemplate .fresh time maxTransactions).withNonce
      nonce).transactions = _
    rw [transactions]
    rfl
  have isRoot : (((new key).createBlockTemplate .fresh time maxTransactions).withNonce
      nonce).calculateMerkleRoot = (firstCoinbase key).getTxID := by
    rw [Block.calculateMerkleRoot, transactions]
    rfl
  rw [Block.isValid_iff, root, isRoot, transactions, List.forall_mem_singleton,
    firstCoinbase_isValid]
  have shape : Block.coinbaseFirst [firstCoinbase key] = true := rfl
  have work := Difficulty.checkProofOfWork_iff (((new key).createBlockTemplate .fresh time
    maxTransactions).withNonce nonce).getHash Difficulty.getInitialBits
  rw [initial_target] at work
  simp only [shape, true_and]
  exact and_congr_right fun _ => work

end Template

end Miner

namespace Recorded

variable {db : LevelDB} {secp : Secp256k1}

/-- While no block is accepted the chain state stays where it is. -/
theorem run_unmoved (documented : db.Documented) {record after : Recorded db}
    {calls : List NodeCall} (run : Run (Step secp) record calls after) :
    record.accepted <+: after.accepted ∧
      (after.accepted = record.accepted → after.node.chainState = record.node.chainState) := by
  induction run with
  | start => exact ⟨List.prefix_rfl, fun _ => rfl⟩
  | @step calls state call after before next ih =>
      obtain ⟨earlier, unmoved⟩ := ih
      have grown : state.accepted <+: after.accepted := by
        rw [next.2]
        exact List.prefix_append _ _
      refine ⟨earlier.trans grown, fun same => ?_⟩
      have between : state.accepted = record.accepted :=
        (earlier.eq_of_length (Nat.le_antisymm earlier.length_le
          (same ▸ grown.length_le))).symm
      rcases step_cases documented next with ⟨_, chainState, _⟩ | ⟨block, _, _, longer, _⟩
      · rw [chainState, unmoved between]
      · rw [longer, between] at same
        simp at same

/-- A template is of use to a node that has not accepted a block, and never again: it names no
block before it.  The node reads the hash of a block from one end, and the miner, that looks for
the nonce, from the other one. -/
theorem run_template_accepted_iff (documented : db.Documented) {networkMode : NetworkMode}
    {disk : db.Disk} {calls later : List NodeCall} {created now : Recorded db}
    (run : Run (Step secp) (construct networkMode disk) calls created)
    (continued : Run (Step secp) created later now) (few : calls.length + later.length < 2 ^ 64)
    (named : ∀ block ∈ now.accepted, block.getHash ≠ zeroHash) (key : ByteVector) (time : UInt32)
    (maxTransactions : Nat) :
    let template := (Miner.new key).createBlockTemplate created.node.chainState time maxTransactions
    (∀ nonce, (now.node.validateAndApplyBlock secp (template.withNonce nonce)).1 = some true ↔
      now.accepted = [] ∧ key.bytes ≠ [] ∧
        ofLittleEndian (template.withNonce nonce).getHash.bytes ≤ 0x7fffff * 256 ^ 29) ∧
    ∀ maxIterations stops miner block,
      (∃ fuel after,
        Miner.mineBlock fuel stops miner template maxIterations = some (some block, after)) ↔
      ∃ turns, (∀ earlier ≤ turns, Miner.Allowed maxIterations stops (UInt64.ofNat earlier)) ∧
        (∀ earlier < turns, 0xffff7f ≤ ofLittleEndian (template.withNonce
          (UInt64.ofNat earlier).toUInt32).getHash.bytes.reverse) ∧
        block = template.withNonce (UInt64.ofNat turns).toUInt32 ∧
        ofLittleEndian block.getHash.bytes.reverse < 0xffff7f := by
  intro template
  obtain ⟨countedCreated, _, fewAccepted⟩ :=
    run_counted documented (counted_start networkMode disk) run
      (by change 0 + calls.length < 2 ^ 64; omega)
  change created.accepted.length ≤ 0 + calls.length at fewAccepted
  have counted := (run_counted documented countedCreated continued (by omega)).1
  refine ⟨fun nonce => ?_, fun maxIterations stops miner block => ?_⟩
  · have fresh (none : now.accepted = []) : template.withNonce nonce =
        ((Miner.new key).createBlockTemplate .fresh time maxTransactions).withNonce nonce ∧
          now.node.chainState = .fresh := by
      obtain ⟨earlier, unmoved⟩ := run_unmoved documented continued
      have noneCreated : created.accepted = [] := List.prefix_nil.mp (none ▸ earlier)
      have isFresh : created.node.chainState = .fresh :=
        (run_unmoved documented run).2 noneCreated
      exact ⟨by rw [← isFresh], (unmoved (none.trans noneCreated.symm)).trans isFresh⟩
    constructor
    · intro accepted
      have valid := (Node.validateAndApplyBlock_eq_true.mp accepted).1
      have previous : zeroHash = lastName Block.getHash zeroHash now.accepted :=
        counted.previous valid
      have none : now.accepted = [] := by
        rcases List.eq_nil_or_concat' now.accepted with none | ⟨blocks, block, isLast⟩
        · exact none
        · rw [isLast, lastName_concat] at previous
          exact absurd previous.symm (named block (isLast ▸ List.mem_concat_self))
      obtain ⟨isTemplate, _⟩ := fresh none
      have isValid := (ChainState.validateBlock_eq_true.mp valid).1
      rw [isTemplate] at isValid ⊢
      exact ⟨none, (Miner.template_isValid key time maxTransactions nonce).mp isValid⟩
    · rintro ⟨none, valid⟩
      obtain ⟨isTemplate, isFresh⟩ := fresh none
      have transactions := Miner.template_transactions key time maxTransactions nonce
      rw [isTemplate] at valid ⊢
      refine Node.coinbase_block_accepted secp counted.inStep (by rw [isFresh]; decide) ?_
        transactions
      rw [isFresh]
      refine ChainState.validateBlock_eq_true.mpr
        ⟨(Miner.template_isValid key time maxTransactions nonce).mpr valid, rfl,
          Miner.firstCoinbase key, [], transactions, ?_⟩
      rw [ChainState.getCoinbaseOutputs, Miner.firstCoinbase_values]
      decide +kernel
  · have works (nonce : UInt32) :
        Miner.verifyProofOfWork (template.withNonce nonce) template.target = true ↔
          ofLittleEndian (template.withNonce nonce).getHash.bytes.reverse < 0xffff7f := by
      rw [Miner.verifyProofOfWork_iff, Miner.template_target]
    have fails (nonce : UInt32) :
        Miner.verifyProofOfWork (template.withNonce nonce) template.target = false ↔
          0xffff7f ≤ ofLittleEndian (template.withNonce nonce).getHash.bytes.reverse := by
      rw [Bool.eq_false_iff, ne_eq, works, Nat.not_lt]
    have searched := @Miner.mineFrom_iff maxIterations stops template block 0
      { miner with isMining := true, totalHashes := 0 }
    simp only [UInt64.zero_add, works, fails] at searched
    refine searched.trans (exists_congr fun turns => and_congr_right fun _ =>
      and_congr_right fun _ => ?_)
    constructor
    · rintro ⟨hits, rfl⟩
      exact ⟨rfl, hits⟩
    · rintro ⟨rfl, hits⟩
      exact ⟨hits, rfl⟩

/-! A template of a fresh node, offered before and after another first block is accepted. -/
namespace FirstTemplate

open BlockValidator.DoubleSpend (library funding)
open Node.MaturedCoin (start)
open TwoNodes (first)

def key : ByteVector := ⟨[1], by decide⟩

def coinbaseID : Hash :=
  .ofNat 32 0x49419359f5193ca0902f213327faccb2c2b10d92ee780a3f533f750be4a718c0

def template : BlockTemplate := (Miner.new key).createBlockTemplate .fresh 0 0

/-- The header of the template with its nonce, and with the root as a number. -/
def header : BlockHeader where
  version := 1
  prevBlockHash := zeroHash
  merkleRoot := coinbaseID
  timestamp := 0
  bits := Difficulty.getInitialBits
  nonce := 3
  baseFeePerGas := 1000000000
  gasUsed := 0
  gasLimit := 30000000

theorem coinbase_hashes : (Miner.firstCoinbase key).getTxID = coinbaseID ∧
    ofLittleEndian header.getHash.bytes ≤ 0x7fffff * 256 ^ 29 := by
  unfold Transaction.getTxID BlockHeader.getHash
  simp only [SHA256d.hash256d_eq_words]
  decide +kernel

theorem template_header : (template.withNonce 3).header = header := by
  have root : Miner.computeMerkleRoot (template.withNonce 3).transactions = coinbaseID := by
    rw [template, Miner.template_transactions]
    exact coinbase_hashes.1
  rw [header, ← root]
  rfl

theorem run_template_accepted_first :
    (start.validateAndApplyBlock library (template.withNonce 3)).1 = some true ∧
      (first.node.validateAndApplyBlock library (template.withNonce 3)).1 ≠ some true := by
  have started : Run (Step library) (construct .regtest ([] : List (Bytes × Bytes))) []
      { node := start, accepted := [] } := .start
  have none := run_template_accepted_iff LevelDB.memory_documented started .start (by decide)
    nofun key 0 0
  have one := run_template_accepted_iff LevelDB.memory_documented started TwoNodes.first_run
    (by decide) (fun block member => by
      rw [List.mem_singleton.mp member, BlockValidator.DoubleSpend.funding_getHash]
      decide) key 0 0
  refine ⟨(none.1 3).mpr ⟨rfl, by decide, ?_⟩, fun accepted => ?_⟩
  · change ofLittleEndian (template.withNonce 3).header.getHash.bytes ≤ _
    rw [template_header]
    exact coinbase_hashes.2
  · exact absurd ((one.1 3).mp accepted).1 (List.cons_ne_nil _ _)

end FirstTemplate

end Recorded

end Parthenon
