import Parthenon.Rollup.ZkExits

namespace Parthenon.Rollup

open Library Crypto Std

/-! # Zero-knowledge rollup

Transactions wait until a batch is made of them.  A batch is submitted with a proof of its
contents and is in the rollup at once.
-/

structure ZKRollupBatch where
  batchId : UInt64
  stateRootBefore : Hash
  stateRootAfter : Hash
  transactionHashes : List Hash
  validityProof : ZKProof
  timestamp : UInt64
  operatorSignature : Bytes
deriving DecidableEq, Repr

/-- A transaction with what the state does not read. -/
structure PendingTransaction extends ZKTransaction where
  txHash : Hash
  transferProof : ZKProof
  encryptedData : Bytes
deriving DecidableEq, Repr

structure ZKBatchInfo where
  batch : ZKRollupBatch
  submissionBlock : UInt64
  finalized : Bool
deriving DecidableEq, Repr

structure ZKRollup where
  currentBatchId : UInt64
  currentBlockHeight : UInt64
  state : ZKRollupState
  batches : ExtTreeMap UInt64 ZKBatchInfo compare
  pendingTransactions : List PendingTransaction
  proofParams : ProofParameters

def serializeBatchInputs (batch : ZKRollupBatch) : Bytes :=
  littleEndian 8 batch.batchId.toNat ++ littleEndian 8 batch.timestamp.toNat ++
    batch.stateRootBefore.bytes ++ batch.stateRootAfter.bytes ++
    littleEndian 4 (UInt32.ofNat batch.transactionHashes.length).toNat ++
    batch.transactionHashes.flatMap FixedBytes.bytes ++ batch.operatorSignature

def serializeTransactionInputs (tx : PendingTransaction) : Bytes :=
  tx.txHash.bytes ++ tx.nullifier.bytes ++ tx.commitment.bytes ++ tx.encryptedData

namespace ZKRollup

def new : ZKRollup where
  currentBatchId := 0
  currentBlockHeight := 0
  state := .new
  batches := ∅
  pendingTransactions := []
  proofParams := ProofParameters.setup 1024

variable (rollup : ZKRollup)

def addTransaction (tx : PendingTransaction) : Bool × ZKRollup :=
  if !verifyZkProof tx.transferProof rollup.proofParams (serializeTransactionInputs tx) then
    (false, rollup)
  else (true, { rollup with pendingTransactions := rollup.pendingTransactions ++ [tx] })

/-- What `ApplyTransaction` returns is not looked at. -/
def createBatch : ZKRollupBatch × ZKRollup :=
  let state := rollup.pendingTransactions.foldl
    (fun state tx => (state.applyTransaction tx.toZKTransaction).2) rollup.state
  ({ batchId := rollup.currentBatchId + 1
     stateRootBefore := rollup.state.getStateRoot
     stateRootAfter := state.getStateRoot
     transactionHashes := rollup.pendingTransactions.map PendingTransaction.txHash
     validityProof := ⟨[], [], 0⟩
     timestamp := rollup.currentBlockHeight
     operatorSignature := [] },
   { rollup with state, pendingTransactions := [] })

def verifyBatchProof (batch : ZKRollupBatch) : Bool :=
  verifyZkProof batch.validityProof rollup.proofParams (serializeBatchInputs batch)

def submitBatch (batch : ZKRollupBatch) : Bool × ZKRollup :=
  if batch.batchId ≠ rollup.currentBatchId + 1 then (false, rollup)
  else if !rollup.verifyBatchProof batch then (false, rollup)
  else if batch.stateRootAfter ≠ rollup.state.getStateRoot then (false, rollup)
  else
    (true,
      { rollup with
        batches := rollup.batches.insert batch.batchId ⟨batch, rollup.currentBlockHeight, false⟩
        currentBatchId := batch.batchId })

end ZKRollup

end Parthenon.Rollup
