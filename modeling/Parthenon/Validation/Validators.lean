import Parthenon.Chainstate.ChainLaws
import Parthenon.Crypto.Schnorr
import Parthenon.Library.Effects

namespace Parthenon.Validation

open Parthenon.Library Parthenon.Crypto Parthenon.Primitives Parthenon.Consensus
open Parthenon.Chainstate

/-! # The validators

The stand-alone checks of transactions and blocks, which read a UTXO set and
change nothing.
-/

inductive ValidationError.Type
  | txNoInputs
  | txNoOutputs
  | txDuplicateInputs
  | txMissingInput
  | txImmatureCoinbase
  | txInvalidSignature
  | txAssetConservation
  | txInvalidAmount
  | blockNoTransactions
  | blockNoCoinbase
  | blockMultipleCoinbase
  | blockInvalidMerkleRoot
  | blockInvalidPow
  | blockInvalidCoinbaseReward
  | blockExceedsSupplyCap
  | blockInvalidTransaction
  | unknown
deriving DecidableEq, Repr

structure ValidationError where
  type : ValidationError.Type
  message : String
deriving DecidableEq, Repr

namespace TransactionValidator

@[ext] structure UTXOValidationResult where
  inputAmounts : AmountMap
  outputAmounts : AmountMap
  inputCoins : List Coin

def UTXOValidationResult.empty : UTXOValidationResult :=
  { inputAmounts := ∅, outputAmounts := ∅, inputCoins := [] }

def validateStructure (tx : Transaction) : Except ValidationError Unit := do
  ensure (tx.isCoinbase || !tx.inputs.isEmpty) ⟨.txNoInputs, "Transaction has no inputs"⟩
  ensure (!tx.outputs.isEmpty) ⟨.txNoOutputs, "Transaction has no outputs"⟩
  ensure tx.prevouts.Nodup ⟨.txDuplicateInputs, "Transaction has duplicate inputs"⟩
  ensure (tx.outputs.all (·.value.isValid))
    ⟨.txInvalidAmount, "Transaction output has invalid amount"⟩

/-- The input loop of `ValidateAgainstUTXO`. -/
def spentCoins (utxoSet : UTXOSet) (height : UInt32) :
    List OutPoint → Except ValidationError (List Coin)
  | [] => .ok []
  | outpoint :: rest =>
      match utxoSet.getCoin outpoint with
      | none => .error ⟨.txMissingInput, "Transaction input does not exist in UTXO set"⟩
      | some coin =>
          if !coin.isSpendable height then
            .error ⟨.txImmatureCoinbase, "Transaction spends immature coinbase output"⟩
          else (spentCoins utxoSet height rest).map (coin :: ·)

/-- Reading an input amount with `operator[]` stores a zero for an asset that had none. -/
def touchAmounts (inputAmounts outputAmounts : AmountMap) : AmountMap :=
  outputAmounts.toList.foldl (fun touched entry => touched.insertIfNew entry.1 0) inputAmounts

/-- The result is given back on success only; no caller reads it after an error. -/
def validateAgainstUTXO (tx : Transaction) (utxoSet : UTXOSet) (height : UInt32) :
    Except ValidationError UTXOValidationResult :=
  if tx.isCoinbase then .ok .empty
  else
    match spentCoins utxoSet height tx.prevouts with
    | .error error => .error error
    | .ok inputCoins =>
        let inputAmounts := AmountMap.sum (inputCoins.map (·.output.value))
        let outputAmounts := AmountMap.sum (tx.outputs.map TxOutput.value)
        if !inputAmounts.covers outputAmounts then
          .error ⟨.txAssetConservation, "Transaction creates assets from thin air"⟩
        else
          .ok { inputAmounts := touchAmounts inputAmounts outputAmounts, outputAmounts, inputCoins }

/-- The body of the loop of `ValidateSignatures`, at the input with the given index. -/
def validateInputSignature (secp : Secp256k1) (tx : Transaction) (utxoSet : UTXOSet)
    (indexed : TxInput × Nat) : Except ValidationError Unit :=
  match utxoSet.getCoin indexed.1.prevout with
  | none =>
      .error ⟨.txMissingInput, "Cannot validate signature: input not found in UTXO set"⟩
  | some coin =>
      match FixedBytes.ofBytes? Schnorr.publicKeySize coin.output.pubkeyScript.bytes with
      | none =>
          .error ⟨.txInvalidSignature, "Invalid pubkey script size in output being spent"⟩
      | some pubkey => do
          ensure (Schnorr.validatePublicKey secp pubkey)
            ⟨.txInvalidSignature, "Invalid public key in output being spent"⟩
          match FixedBytes.ofBytes? Schnorr.signatureSize indexed.1.signatureScript.bytes with
          | none =>
              .error ⟨.txInvalidSignature, "Invalid signature size in transaction input"⟩
          | some signature =>
              ensure (Schnorr.verify secp pubkey (tx.getSignatureHash indexed.2) signature)
                ⟨.txInvalidSignature, "Schnorr signature verification failed for input"⟩

def validateSignatures (secp : Secp256k1) (tx : Transaction) (utxoSet : UTXOSet) :
    Except ValidationError Unit :=
  if tx.isCoinbase then .ok ()
  else checkEach (validateInputSignature secp tx utxoSet) tx.inputs.zipIdx

end TransactionValidator

namespace BlockValidator

def validateStructure (block : Block) : Except ValidationError Unit := do
  ensure (!block.transactions.isEmpty) ⟨.blockNoTransactions, "Block has no transactions"⟩
  ensure ((block.transactions.take 1).all Transaction.isCoinbase)
    ⟨.blockNoCoinbase, "Block's first transaction is not coinbase"⟩
  ensure ((block.transactions.drop 1).all fun tx => !tx.isCoinbase)
    ⟨.blockMultipleCoinbase, "Block has multiple coinbase transactions"⟩
  ensure (block.calculateMerkleRoot = block.header.merkleRoot)
    ⟨.blockInvalidMerkleRoot, "Block merkle root does not match calculated value"⟩

def validatePoW (block : Block) : Except ValidationError Unit :=
  ensure (Difficulty.checkProofOfWork block.getHash block.header.bits)
    ⟨.blockInvalidPow, "Block does not meet difficulty target"⟩

/-- The body of the reward loop of `ValidateCoinbase`. -/
def validateReward (height : UInt32) (currentSupply : AmountMap) (reward : AssetID × UInt64) :
    Except ValidationError Unit := do
  ensure (Issuance.isValidBlockReward height.toUInt64 reward.1 reward.2)
    ⟨.blockInvalidCoinbaseReward, "Block coinbase reward exceeds allowed amount"⟩
  let supply := currentSupply.getD reward.1 0
  ensure (!(supply + reward.2 < supply))
    ⟨.blockExceedsSupplyCap, "Block coinbase would cause supply overflow"⟩
  ensure (!(supply + reward.2 > AssetSupply.getMaxSupply reward.1))
    ⟨.blockExceedsSupplyCap, "Block coinbase would exceed supply cap"⟩

/-- A block without transactions, whose coinbase the source would read past the
end of an empty vector, has no reward to check. -/
def validateCoinbase (block : Block) (height : UInt32) (currentSupply : AmountMap) :
    Except ValidationError Unit :=
  match block.transactions with
  | [] => .ok ()
  | coinbase :: _ =>
      let coinbaseAmounts := AmountMap.sum (coinbase.outputs.map TxOutput.value)
      checkEach (validateReward height currentSupply) coinbaseAmounts.toList

/-- Report the error of a transaction as one of its block. -/
def blockError (context : String) (error : ValidationError) : ValidationError :=
  ⟨.blockInvalidTransaction, context ++ error.message⟩

/-- The body of the transaction loop of `ValidateBlock`. -/
def validateTransaction (secp : Secp256k1) (utxoSet : UTXOSet) (height : UInt32) (tx : Transaction) :
    Except ValidationError Unit := do
  (TransactionValidator.validateStructure tx).mapError
    (blockError "Block contains invalid transaction: ")
  let _ ← (TransactionValidator.validateAgainstUTXO tx utxoSet height).mapError
    (blockError "Block transaction validation failed: ")
  (TransactionValidator.validateSignatures secp tx utxoSet).mapError
    (blockError "Block transaction signature invalid: ")

def validateBlock (secp : Secp256k1) (block : Block) (utxoSet : UTXOSet) (height : UInt32)
    (currentSupply : AmountMap) : Except ValidationError Unit := do
  validateStructure block
  validatePoW block
  validateCoinbase block height currentSupply
  checkEach (validateTransaction secp utxoSet height) (block.transactions.drop 1)

end BlockValidator

/-! ## What the validators accept

Each validator in terms of the chain's own rules.
-/

namespace TransactionValidator

theorem spentCoins_eq_ok {utxoSet : UTXOSet} {height : UInt32} {outpoints : List OutPoint}
    {coins : List Coin} :
    spentCoins utxoSet height outpoints = .ok coins ↔
      Chain.inputCoins utxoSet height outpoints = some coins := by
  induction outpoints generalizing coins with
  | nil => simp [spentCoins, Chain.inputCoins]
  | cons outpoint rest ih =>
      rw [spentCoins, Chain.inputCoins]
      cases found : utxoSet.getCoin outpoint with
      | none => simp
      | some coin =>
          cases spendable : coin.isSpendable height with
          | false => simp [spendable]
          | true =>
              cases later : spentCoins utxoSet height rest with
              | error reason =>
                  have missing : Chain.inputCoins utxoSet height rest = none := by
                    cases others : Chain.inputCoins utxoSet height rest with
                    | none => rfl
                    | some coins =>
                        rw [ih.mpr others] at later
                        cases later
                  simp [spendable, missing, Except.map]
              | ok others => simp [spendable, ih.mp later, Except.map]

/-- The validator accepts the transactions that the chain accepts. -/
theorem validateAgainstUTXO_ok_iff {tx : Transaction} {utxoSet : UTXOSet} {height : UInt32} :
    (∃ result, validateAgainstUTXO tx utxoSet height = .ok result) ↔
      (Chain.validateTransaction utxoSet tx height).isSome = true := by
  unfold validateAgainstUTXO Chain.validateTransaction
  cases tx.isCoinbase with
  | true => simp
  | false =>
      cases spent : spentCoins utxoSet height tx.prevouts with
      | error reason =>
          cases found : Chain.inputCoins utxoSet height tx.prevouts with
          | none => simp
          | some coins =>
              rw [spentCoins_eq_ok.mpr found] at spent
              cases spent
      | ok coins =>
          rw [spentCoins_eq_ok.mp spent]
          cases covered : (AmountMap.sum (coins.map (·.output.value))).covers
              (AmountMap.sum (tx.outputs.map TxOutput.value)) with
          | false => simp [covered]
          | true => simp [covered]

theorem spentCoins_congr {left right : UTXOSet} {height : UInt32} {outpoints : List OutPoint}
    (same : ∀ outpoint ∈ outpoints, left.getCoin outpoint = right.getCoin outpoint) :
    spentCoins left height outpoints = spentCoins right height outpoints := by
  induction outpoints with
  | nil => rfl
  | cons outpoint rest ih =>
      obtain ⟨here, later⟩ := List.forall_mem_cons.mp same
      rw [spentCoins, spentCoins, here, ih later]

theorem validateAgainstUTXO_congr {left right : UTXOSet} {tx : Transaction} {height : UInt32}
    (same : ∀ outpoint ∈ tx.prevouts, left.getCoin outpoint = right.getCoin outpoint) :
    validateAgainstUTXO tx left height = validateAgainstUTXO tx right height := by
  rw [validateAgainstUTXO, validateAgainstUTXO, spentCoins_congr same]

theorem inputs_found {tx : Transaction} {utxoSet : UTXOSet} {height : UInt32}
    {result : UTXOValidationResult} (ordinary : tx.isCoinbase = false)
    (accepted : validateAgainstUTXO tx utxoSet height = .ok result) :
    ∀ outpoint ∈ tx.prevouts, ∃ coin, utxoSet.getCoin outpoint = some coin ∧
      coin.isSpendable height = true := by
  have valid := validateAgainstUTXO_ok_iff.mp ⟨result, accepted⟩
  obtain ⟨coins, valid⟩ := Option.isSome_iff_exists.mp valid
  have taken := Chain.inputCoins_eq_some.mp ((Chain.validateTransaction_eq_some ordinary).mp valid).1
  intro outpoint member
  obtain ⟨index, inside, rfl⟩ := List.getElem_of_mem member
  exact ⟨_, (List.forall₂_iff_get.mp taken).2 index inside (taken.length_eq ▸ inside)⟩

/-- The signature of a transaction with one input. -/
theorem validateSignatures_single {secp : Secp256k1} {tx : Transaction} {utxoSet : UTXOSet}
    {input : TxInput} {coin : Coin} {pubkey : PublicKey} {signature : Signature}
    (inputs : tx.inputs = [input]) (found : utxoSet.getCoin input.prevout = some coin)
    (script : FixedBytes.ofBytes? Schnorr.publicKeySize coin.output.pubkeyScript.bytes = some pubkey)
    (given : FixedBytes.ofBytes? Schnorr.signatureSize input.signatureScript.bytes = some signature)
    (isKey : Schnorr.validatePublicKey secp pubkey = true)
    (verified : Schnorr.verify secp pubkey (tx.getSignatureHash 0) signature = true) :
    validateSignatures secp tx utxoSet = .ok () := by
  unfold validateSignatures
  split
  · rfl
  · rw [inputs, checkEach_ok]
    intro indexed member
    obtain rfl : indexed = (input, 0) := List.mem_singleton.mp member
    simp only [validateInputSignature, found, script, given]
    exact then_ok.mpr ⟨ensure_ok.mpr isKey, ensure_ok.mpr verified⟩

end TransactionValidator

namespace BlockValidator

theorem validateStructure_ok {block : Block} :
    validateStructure block = .ok () ↔ Block.coinbaseFirst block.transactions = true ∧
      block.calculateMerkleRoot = block.header.merkleRoot := by
  rw [validateStructure, then_ok, then_ok, then_ok, ensure_ok, ensure_ok, ensure_ok, ensure_ok,
    decide_eq_true_eq]
  cases block.transactions with
  | nil => simp [Block.coinbaseFirst]
  | cons coinbase rest => simp [Block.coinbaseFirst, and_assoc]

/-- The validator's reward check is the chain's. -/
theorem validateRewards_ok {height : UInt32} {rewards : List (AssetID × UInt64)}
    {currentSupply totalSupply : AmountMap}
    (same : ∀ asset, totalSupply.getD asset 0 = currentSupply.getD asset 0) :
    checkEach (validateReward height currentSupply) rewards = .ok () ↔
      (Chain.checkRewards height rewards totalSupply).1 = true := by
  induction rewards generalizing totalSupply with
  | nil => simp [checkEach, Chain.checkRewards]
  | cons reward rest ih =>
      obtain ⟨asset, amount⟩ := reward
      have touched (other : AssetID) := Chain.insertIfNew_zero_getD totalSupply asset other
      have laterSame (other : AssetID) :
          (totalSupply.insertIfNew asset 0).getD other 0 = currentSupply.getD other 0 :=
        (touched other).trans (same other)
      have later := ih laterSame
      rw [checkEach, then_ok, later, validateReward, then_ok, then_ok, ensure_ok, ensure_ok,
        ensure_ok, Chain.checkRewards]
      cases allowed : Issuance.isValidBlockReward height.toUInt64 asset amount with
      | false => simp
      | true =>
          simp only [laterSame, Bool.not_true, Bool.false_eq_true, if_false, true_and,
            Bool.not_eq_true', decide_eq_false_iff_not]
          split
          · rename_i overflows
            simp [overflows]
          · rename_i fits
            split
            · rename_i capped
              simp [capped]
            · rename_i below
              simp [fits, below]

theorem validateBlock_ok {secp : Secp256k1} {block : Block} {utxoSet : UTXOSet} {height : UInt32}
    {currentSupply : AmountMap} :
    validateBlock secp block utxoSet height currentSupply = .ok () ↔
      validateStructure block = .ok () ∧ validatePoW block = .ok () ∧
      validateCoinbase block height currentSupply = .ok () ∧
      ∀ tx ∈ block.transactions.drop 1, validateTransaction secp utxoSet height tx = .ok () := by
  rw [validateBlock, then_ok, then_ok, then_ok, checkEach_ok]

theorem validateTransaction_ok {secp : Secp256k1} {utxoSet : UTXOSet} {height : UInt32}
    {tx : Transaction} :
    validateTransaction secp utxoSet height tx = .ok () ↔
      TransactionValidator.validateStructure tx = .ok () ∧
      (∃ result, TransactionValidator.validateAgainstUTXO tx utxoSet height = .ok result) ∧
      TransactionValidator.validateSignatures secp tx utxoSet = .ok () := by
  rw [validateTransaction, then_ok, bind_ok, mapError_ok, mapError_ok]
  simp only [mapError_ok]
  constructor
  · rintro ⟨structural, result, accepted, signed⟩
    exact ⟨structural, ⟨result, accepted⟩, signed⟩
  · rintro ⟨structural, ⟨result, accepted⟩, signed⟩
    exact ⟨structural, result, accepted, signed⟩

end BlockValidator

end Parthenon.Validation
