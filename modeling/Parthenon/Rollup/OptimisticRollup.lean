import Parthenon.Crypto.Sha256Laws
import Parthenon.Library.OrderedMap

namespace Parthenon.Rollup

open Library Crypto Std

/-! # Optimistic rollup

Batches of transactions are taken as they claim to be, can be disputed by a fraud
proof, and become final after a challenge period.
-/

structure RollupBatch where
  batchId : UInt64
  stateRootBefore : Hash
  stateRootAfter : Hash
  transactions : List Hash
  timestamp : UInt64
  operatorSignature : Bytes
deriving DecidableEq, Repr

structure FraudProof where
  batchId : UInt64
  disputedTxIndex : UInt64
  claimedStateRoot : Hash
  correctStateRoot : Hash
  stateProofBefore : Bytes
  stateProofAfter : Bytes
  witnessData : Bytes
deriving DecidableEq, Repr

structure BatchInfo where
  batch : RollupBatch
  submissionBlock : UInt64
  finalized : Bool
  challenged : Bool
deriving DecidableEq, Repr

abbrev Batches := ExtTreeMap UInt64 BatchInfo compare

structure OptimisticRollup where
  currentBatchId : UInt64
  challengePeriod : UInt64
  currentBlockHeight : UInt64
  currentStateRoot : Hash
  batches : Batches

/-! ## Execution -/

/-- One transaction: the root and its hash are written to a hasher. -/
def applyTransaction (root txHash : Hash) : Hash :=
  ((SHA256.reset.write root.bytes).write txHash.bytes).finalize.1

def replay (root : Hash) (transactions : List Hash) : Hash := transactions.foldl applyTransaction root

theorem applyTransaction_eq (root txHash : Hash) :
    applyTransaction root txHash = SHA256.hash256 (root.bytes ++ txHash.bytes) :=
  SHA256.finalize_write_write root.bytes txHash.bytes

namespace OptimisticRollup

def new : OptimisticRollup where
  currentBatchId := 0
  challengePeriod := 100
  currentBlockHeight := 0
  currentStateRoot := zeroHash
  batches := ∅

def setChallengePeriod (rollup : OptimisticRollup) (blocks : UInt64) : OptimisticRollup :=
  { rollup with challengePeriod := blocks }

variable (rollup : OptimisticRollup)

/-- The first batch may start from any root. -/
def submitBatch (batch : RollupBatch) : Bool × OptimisticRollup :=
  if batch.batchId ≠ rollup.currentBatchId + 1 then (false, rollup)
  else if rollup.currentBatchId > 0 ∧ batch.stateRootBefore ≠ rollup.currentStateRoot then
    (false, rollup)
  else
    (true,
      { rollup with
        currentBatchId := batch.batchId
        currentStateRoot := batch.stateRootAfter
        batches := rollup.batches.insert batch.batchId
          { batch, submissionBlock := rollup.currentBlockHeight
            finalized := false, challenged := false } })

def getBatch (batchId : UInt64) : Option RollupBatch := rollup.batches[batchId]?.map BatchInfo.batch

/-- The root that the batch claims is not looked at. -/
def verifyFraudProof (proof : FraudProof) : Bool :=
  match rollup.batches[proof.batchId]? with
  | none => false
  | some info =>
      match info.batch.transactions[proof.disputedTxIndex.toNat]? with
      | none => false
      | some disputedTxHash =>
          if proof.claimedStateRoot = proof.correctStateRoot then false
          else if proof.witnessData.isEmpty then false
          else if proof.stateProofBefore.isEmpty || proof.stateProofAfter.isEmpty then false
          else
            let preState := replay info.batch.stateRootBefore
              (info.batch.transactions.take proof.disputedTxIndex.toNat)
            let computedRoot := applyTransaction preState disputedTxHash
            computedRoot ≠ proof.claimedStateRoot && computedRoot = proof.correctStateRoot

/-- A batch that is challenged keeps its place.  Only the last one is taken back. -/
def submitFraudProof (proof : FraudProof) : Bool × OptimisticRollup :=
  match rollup.batches[proof.batchId]? with
  | none => (false, rollup)
  | some info =>
      if info.finalized then (false, rollup)
      else if !rollup.verifyFraudProof proof then (false, rollup)
      else
        let marked :=
          { rollup with batches := rollup.batches.insert proof.batchId { info with challenged := true } }
        if info.batch.batchId = rollup.currentBatchId then
          (true,
            { marked with
              currentStateRoot := info.batch.stateRootBefore
              currentBatchId := rollup.currentBatchId - 1 })
        else (true, marked)

/-- The end of the challenge period is a sum that wraps. -/
def finalizeBatch (batchId : UInt64) : Bool × OptimisticRollup :=
  match rollup.batches[batchId]? with
  | none => (false, rollup)
  | some info =>
      if rollup.currentBlockHeight < info.submissionBlock + rollup.challengePeriod then (false, rollup)
      else if info.challenged then (false, rollup)
      else
        (true,
          { rollup with batches := rollup.batches.insert batchId { info with finalized := true } })

/-! ## Verifier -/

def verifyBatch (batch : RollupBatch) : Bool :=
  if batch.transactions.isEmpty then false
  else if batch.operatorSignature.isEmpty then false
  else replay batch.stateRootBefore batch.transactions = batch.stateRootAfter

/-- The loop over the transactions: the next index, the last index, and the roots
before and after the last transaction. -/
def reExecute (root : Hash) (transactions : List Hash) : Nat × Nat × Hash × Hash :=
  transactions.foldl
    (fun (next, _, _, running) txHash => (next + 1, next, running, applyTransaction running txHash))
    (0, 0, root, root)

/-- The proof, if there is something to dispute.  The index is cut to 32 bits.
`none` is an access behind the last transaction. -/
def generateFraudProof (batchId : UInt64) : Option (Option FraudProof) :=
  match rollup.getBatch batchId with
  | none => some none
  | some batch =>
      if verifyBatch batch then some none
      else
        let (_, disputedIndex, preRoot, runningRoot) := reExecute batch.stateRootBefore batch.transactions
        batch.transactions[disputedIndex]?.map fun disputedTxHash =>
          some
            { batchId
              disputedTxIndex := (UInt32.ofNat disputedIndex).toUInt64
              claimedStateRoot := batch.stateRootAfter
              correctStateRoot := runningRoot
              stateProofBefore := preRoot.bytes
              stateProofAfter := runningRoot.bytes
              witnessData := disputedTxHash.bytes }

/-! ## Calls -/

/-- The calls of a rollup, and the blocks of its chain. -/
inductive Call
  | submitBatch (batch : RollupBatch)
  | submitFraudProof (proof : FraudProof)
  | finalizeBatch (batchId : UInt64)
  | setChallengePeriod (blocks : UInt64)
  | updateBlockHeight (height : UInt64)
deriving DecidableEq, Repr

def apply : Call → Bool × OptimisticRollup
  | .submitBatch batch => rollup.submitBatch batch
  | .submitFraudProof proof => rollup.submitFraudProof proof
  | .finalizeBatch batchId => rollup.finalizeBatch batchId
  | .setChallengePeriod blocks => (true, rollup.setChallengePeriod blocks)
  | .updateBlockHeight height => (true, { rollup with currentBlockHeight := height })

/-- The rollup after a run of calls. -/
def run (calls : List Call) : OptimisticRollup :=
  calls.foldl (fun rollup call => (rollup.apply call).2) new

end OptimisticRollup

end Parthenon.Rollup
