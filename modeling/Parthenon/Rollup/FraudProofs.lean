import Parthenon.Rollup.OptimisticRollup
import Mathlib.Data.List.Induction

namespace Parthenon.Rollup

open Library Crypto Std

/-! # Fraud proofs

Whether a proof that is accepted shows a fraud, and whether a fraud has a proof.
-/

namespace RollupBatch

variable (batch : RollupBatch)

/-- The root after the first transactions of the batch. -/
def rootAt (count : Nat) : Hash := replay batch.stateRootBefore (batch.transactions.take count)

/-- Hashing the root with each transaction in turn gives the root that is claimed. -/
def Honest : Prop :=
  batch.transactions.foldl (fun root txHash => SHA256.hash256 (root.bytes ++ txHash.bytes))
    batch.stateRootBefore = batch.stateRootAfter

instance : Decidable batch.Honest := inferInstanceAs (Decidable (_ = _))

/-- The 64-byte strings that are hashed to execute the batch. -/
def hashedStrings : Set Bytes :=
  {bytes | ∃ index txHash, batch.transactions[index]? = some txHash ∧
    bytes = (batch.rootAt index).bytes ++ txHash.bytes}

theorem replay_eq (root : Hash) (transactions : List Hash) :
    replay root transactions =
      transactions.foldl (fun root txHash => SHA256.hash256 (root.bytes ++ txHash.bytes)) root := by
  unfold replay
  congr 1
  funext root txHash
  exact applyTransaction_eq root txHash

theorem honest_iff :
    batch.Honest ↔ replay batch.stateRootBefore batch.transactions = batch.stateRootAfter := by
  rw [replay_eq]
  rfl

variable {batch}

theorem rootAt_succ {index : Nat} {txHash : Hash}
    (found : batch.transactions[index]? = some txHash) :
    batch.rootAt (index + 1) = applyTransaction (batch.rootAt index) txHash := by
  unfold rootAt replay
  rw [List.take_add_one, found, List.foldl_append]
  rfl

theorem rootAt_of_le {count : Nat} (all : batch.transactions.length ≤ count) :
    batch.rootAt count = replay batch.stateRootBefore batch.transactions := by
  unfold rootAt
  rw [List.take_of_length_le all]

end RollupBatch

/-! A first batch with one transaction, and one without. -/
namespace SampleRollup

def txHash : Hash := .ofNat 32 0x44

/-- The root after the transaction, on the genesis root. -/
def firstRoot : Hash :=
  .ofNat 32 0xcc247daa69305f4ee1afa1677ddc98d47b7e1a6d4739ce4dea2cb2bf92b22048

def batch (transactions : List Hash) (stateRootAfter : Hash) : RollupBatch where
  batchId := 1
  stateRootBefore := zeroHash
  stateRootAfter := stateRootAfter
  transactions := transactions
  timestamp := 0
  operatorSignature := [1]

theorem applyTransaction_txHash : applyTransaction zeroHash txHash = firstRoot := by
  rw [applyTransaction_eq, SHA256.hash256_eq_words]
  decide +kernel

theorem honest : (batch [txHash] firstRoot).Honest :=
  (RollupBatch.honest_iff _).mpr applyTransaction_txHash

/-- The rollup after its first batch. -/
def submitted (batch : RollupBatch) : OptimisticRollup := .run [.submitBatch batch]

theorem submitted_batches (transactions : List Hash) (stateRootAfter : Hash) :
    (submitted (batch transactions stateRootAfter)).batches[(1 : UInt64)]? =
      some
        { batch := batch transactions stateRootAfter
          submissionBlock := 0, finalized := false, challenged := false } :=
  Std.ExtTreeMap.getElem?_insert_self

end SampleRollup

namespace OptimisticRollup

variable {rollup : OptimisticRollup} {proof : FraudProof} {info : BatchInfo} {batchId : UInt64}

/-- What a fraud proof of a stored batch has to be. -/
structure Disputes (info : BatchInfo) (proof : FraudProof) : Prop where
  inside : proof.disputedTxIndex.toNat < info.batch.transactions.length
  differs : proof.claimedStateRoot ≠ proof.correctStateRoot
  witnessed : proof.witnessData ≠ []
  provenBefore : proof.stateProofBefore ≠ []
  provenAfter : proof.stateProofAfter ≠ []
  refutes : info.batch.rootAt (proof.disputedTxIndex.toNat + 1) ≠ proof.claimedStateRoot
  correct : info.batch.rootAt (proof.disputedTxIndex.toNat + 1) = proof.correctStateRoot

theorem verifyFraudProof_iff (found : rollup.batches[proof.batchId]? = some info) :
    rollup.verifyFraudProof proof = true ↔ Disputes info proof := by
  unfold verifyFraudProof
  rw [found]
  dsimp only
  by_cases inside : proof.disputedTxIndex.toNat < info.batch.transactions.length
  · have indexed := List.getElem?_eq_getElem inside
    have computed := info.batch.rootAt_succ indexed
    rw [indexed]
    dsimp only
    change _ = applyTransaction (replay _ _) _ at computed
    rw [← computed]
    constructor
    · intro verified
      split at verified
      · cases verified
      rename_i differs
      split at verified
      · cases verified
      rename_i witnessed
      split at verified
      · cases verified
      rename_i proven
      rw [Bool.and_eq_true, decide_eq_true_eq, decide_eq_true_eq] at verified
      rw [Bool.or_eq_true, not_or, List.isEmpty_iff, List.isEmpty_iff] at proven
      rw [List.isEmpty_iff] at witnessed
      exact ⟨inside, differs, witnessed, proven.1, proven.2, verified.1, verified.2⟩
    · intro disputes
      rw [if_neg disputes.differs, if_neg (by simp [disputes.witnessed]),
        if_neg (by simp [disputes.provenBefore, disputes.provenAfter]), Bool.and_eq_true,
        decide_eq_true_eq, decide_eq_true_eq]
      exact ⟨disputes.refutes, disputes.correct⟩
  · rw [List.getElem?_eq_none (Nat.le_of_not_lt inside)]
    exact iff_of_false nofun fun disputes => inside disputes.inside

theorem submitFraudProof_ok_iff : (rollup.submitFraudProof proof).1 = true ↔
    ∃ info, rollup.batches[proof.batchId]? = some info ∧ info.finalized = false ∧
      Disputes info proof := by
  unfold submitFraudProof
  cases found : rollup.batches[proof.batchId]? with
  | none => simp
  | some info =>
      dsimp only
      cases open_ : info.finalized with
      | true => simp [open_]
      | false =>
          rw [if_neg nofun]
          cases verified : rollup.verifyFraudProof proof with
          | false =>
              refine iff_of_false nofun ?_
              rintro ⟨same, isInfo, -, disputes⟩
              cases isInfo
              rw [(verifyFraudProof_iff found).mpr disputes] at verified
              cases verified
          | true =>
              rw [if_neg nofun]
              refine iff_of_true ?_ ⟨info, rfl, open_, (verifyFraudProof_iff found).mp verified⟩
              split
              · rfl
              · rfl

/-! ## Soundness -/

/-- Each proof that is accepted against the batch of an id is against a batch with a
wrong root. -/
def SoundAt (rollup : OptimisticRollup) (batchId : UInt64) : Prop :=
  ∀ proof, proof.batchId = batchId → (rollup.submitFraudProof proof).1 = true →
    ∀ info, rollup.batches[batchId]? = some info → ¬ info.batch.Honest

/-- An honest batch that has transactions and is not final. -/
def Exposed (info : BatchInfo) : Prop :=
  info.finalized = false ∧ info.batch.transactions ≠ [] ∧ info.batch.Honest

theorem exists_other_hash (hash : Hash) : ∃ other : Hash, other ≠ hash := by
  by_cases zero : hash = zeroHash
  · refine ⟨.ofNat 32 1, fun same => ?_⟩
    rw [zero] at same
    exact absurd same (by decide)
  · exact ⟨zeroHash, Ne.symm zero⟩

/-- The first transaction of an exposed batch, executed, against any other root. -/
theorem Exposed.disputed (exposed : Exposed info) (found : rollup.batches[batchId]? = some info) :
    ∃ proof : FraudProof, proof.batchId = batchId ∧ (rollup.submitFraudProof proof).1 = true := by
  obtain ⟨open_, some_, -⟩ := exposed
  obtain ⟨other, differs⟩ := exists_other_hash (info.batch.rootAt 1)
  let proof : FraudProof :=
    { batchId, disputedTxIndex := 0, claimedStateRoot := other
      correctStateRoot := info.batch.rootAt 1
      stateProofBefore := [0], stateProofAfter := [0], witnessData := [0] }
  have disputes : Disputes info proof :=
    { inside := List.length_pos_iff.mpr some_
      differs := differs
      witnessed := nofun
      provenBefore := nofun
      provenAfter := nofun
      refutes := differs.symm
      correct := rfl }
  exact ⟨proof, rfl, submitFraudProof_ok_iff.mpr ⟨info, found, open_, disputes⟩⟩

/-- Fraud proofs against an id are sound if and only if no exposed batch is stored
there: every exposed batch can be challenged. -/
theorem fraudProofs_sound_iff (rollup : OptimisticRollup) (batchId : UInt64) :
    rollup.SoundAt batchId ↔
      ∀ info, rollup.batches[batchId]? = some info → ¬ Exposed info := by
  constructor
  · intro sound info found exposed
    obtain ⟨proof, same, accepted⟩ := exposed.disputed found
    exact sound proof same accepted info found exposed.2.2
  · intro unexposed proof same accepted info found honest
    subst same
    obtain ⟨other, isOther, open_, disputes⟩ := submitFraudProof_ok_iff.mp accepted
    cases found.symm.trans isOther
    have some_ : info.batch.transactions ≠ [] := by
      intro none_
      have inside := disputes.inside
      rw [none_] at inside
      exact absurd inside (Nat.not_lt_zero _)
    exact unexposed info found ⟨open_, some_, honest⟩

/-- An honest batch of one transaction is challenged. -/
theorem fraudProofs_not_sound :
    ¬ ∀ (calls : List Call) (batchId : UInt64),
      (∀ info, (run calls).batches[batchId]? = some info →
        Set.InjOn SHA256.hash256 info.batch.hashedStrings) →
      (run calls).SoundAt batchId := by
  intro claim
  let batch := SampleRollup.batch [SampleRollup.txHash] SampleRollup.firstRoot
  have found := SampleRollup.submitted_batches [SampleRollup.txHash] SampleRollup.firstRoot
  have exposed : Exposed { batch, submissionBlock := 0, finalized := false, challenged := false } :=
    ⟨rfl, nofun, SampleRollup.honest⟩
  obtain ⟨proof, same, accepted⟩ := exposed.disputed found
  refine claim [.submitBatch batch] 1 ?_ proof same accepted _ found exposed.2.2
  intro info isInfo
  cases isInfo.symm.trans found
  -- there is one string only
  have only : ∀ bytes ∈ batch.hashedStrings,
      bytes = (batch.rootAt 0).bytes ++ SampleRollup.txHash.bytes := by
    rintro bytes ⟨index, txHash, indexed, rfl⟩
    obtain ⟨rfl, rfl⟩ : index = 0 ∧ SampleRollup.txHash = txHash := by
      simpa [batch, SampleRollup.batch, List.getElem?_singleton] using indexed
    rfl
  intro bytes member other otherMember _
  rw [only bytes member, only other otherMember]

/-! ## Completeness -/

/-- The generator's proof against the batch of an id is one that is accepted. -/
def CompleteAt (rollup : OptimisticRollup) (batchId : UInt64) : Prop :=
  ∃ proof, rollup.generateFraudProof batchId = some (some proof) ∧
    (rollup.submitFraudProof proof).1 = true

theorem reExecute_append (root : Hash) (transactions : List Hash) (txHash : Hash) :
    reExecute root (transactions ++ [txHash]) =
      (transactions.length + 1, transactions.length, replay root transactions,
        replay root (transactions ++ [txHash])) := by
  have counted : (reExecute root transactions).1 = transactions.length ∧
      (reExecute root transactions).2.2.2 = replay root transactions := by
    unfold reExecute replay
    induction transactions using List.reverseRecOn with
    | nil => exact ⟨rfl, rfl⟩
    | append_singleton front last ih =>
        rw [List.foldl_append, List.foldl_append, List.length_append]
        exact ⟨congrArg (· + 1) ih.1, congrArg (applyTransaction · last) ih.2⟩
  have last : reExecute root (transactions ++ [txHash]) =
      ((reExecute root transactions).1 + 1, (reExecute root transactions).1,
        (reExecute root transactions).2.2.2,
        applyTransaction (reExecute root transactions).2.2.2 txHash) := by
    unfold reExecute
    rw [List.foldl_append]
    rfl
  rw [last, counted.1, counted.2]
  unfold replay
  rw [List.foldl_append]
  rfl

/-- The proof that is generated against a batch with a wrong root, if it has
transactions: the last one is disputed, under an index of 32 bits. -/
theorem generateFraudProof_eq (found : rollup.batches[batchId]? = some info)
    (dishonest : ¬ info.batch.Honest) :
    rollup.generateFraudProof batchId =
      info.batch.transactions.getLast?.map fun disputedTxHash =>
        some
          { batchId
            disputedTxIndex := (UInt32.ofNat (info.batch.transactions.length - 1)).toUInt64
            claimedStateRoot := info.batch.stateRootAfter
            correctStateRoot := replay info.batch.stateRootBefore info.batch.transactions
            stateProofBefore :=
              (replay info.batch.stateRootBefore info.batch.transactions.dropLast).bytes
            stateProofAfter := (replay info.batch.stateRootBefore info.batch.transactions).bytes
            witnessData := disputedTxHash.bytes } := by
  have invalid : verifyBatch info.batch = false := by
    unfold verifyBatch
    rw [info.batch.honest_iff] at dishonest
    simp [dishonest]
  unfold generateFraudProof getBatch
  rw [found]
  simp only [Option.map_some, invalid, Bool.false_eq_true, if_false]
  generalize info.batch.transactions = transactions
  induction transactions using List.reverseRecOn with
  | nil => rfl
  | append_singleton front last _ =>
      rw [reExecute_append]
      simp

theorem bytes_ne_nil (hash : Hash) : hash.bytes ≠ [] := by
  intro empty
  have width := hash.length_eq
  rw [empty] at width
  cases width

/-- A batch with a wrong root can be disputed if and only if it has transactions and
the root after the disputed one is the final root. -/
theorem fraudProofs_complete_iff {rollup : OptimisticRollup} {batchId : UInt64} {info : BatchInfo}
    (found : rollup.batches[batchId]? = some info) (open_ : info.finalized = false)
    (dishonest : ¬ info.batch.Honest) :
    rollup.CompleteAt batchId ↔
      info.batch.transactions ≠ [] ∧
        info.batch.rootAt ((info.batch.transactions.length - 1) % 2 ^ 32 + 1) =
          replay info.batch.stateRootBefore info.batch.transactions := by
  unfold CompleteAt
  rw [generateFraudProof_eq found dishonest]
  have index : (UInt32.ofNat (info.batch.transactions.length - 1)).toUInt64.toNat =
      (info.batch.transactions.length - 1) % 2 ^ 32 := by
    rw [UInt32.toNat_toUInt64, UInt32.toNat_ofNat']
  have wrong := info.batch.honest_iff.not.mp dishonest
  cases last : info.batch.transactions.getLast? with
  | none =>
      have empty := List.getLast?_eq_none_iff.mp last
      refine iff_of_false ?_ fun both => both.1 empty
      rintro ⟨proof, generated, -⟩
      cases generated
  | some disputedTxHash =>
      have some_ : info.batch.transactions ≠ [] := by
        intro empty
        rw [empty] at last
        cases last
      have positive := List.length_pos_iff.mpr some_
      simp only [Option.map_some, Option.some.injEq, exists_eq_left']
      rw [submitFraudProof_ok_iff]
      constructor
      · rintro ⟨other, isOther, -, disputes⟩
        cases found.symm.trans isOther
        have correct := disputes.correct
        dsimp only at correct
        rw [index] at correct
        exact ⟨some_, correct⟩
      · rintro ⟨-, reached⟩
        refine ⟨info, found, open_, ?_⟩
        have bound := Nat.mod_le (info.batch.transactions.length - 1) (2 ^ 32)
        exact
          { inside := by
              dsimp only
              rw [index]
              omega
            differs := fun same => wrong same.symm
            witnessed := bytes_ne_nil disputedTxHash
            provenBefore := bytes_ne_nil _
            provenAfter := bytes_ne_nil _
            refutes := by
              dsimp only
              rw [index, reached]
              exact wrong
            correct := by
              dsimp only
              rw [index]
              exact reached }

/-- A batch of one transaction that claims to change nothing is disputed. -/
theorem fraudProofs_complete_unchanged :
    (SampleRollup.submitted (SampleRollup.batch [SampleRollup.txHash] zeroHash)).CompleteAt 1 := by
  refine (fraudProofs_complete_iff (SampleRollup.submitted_batches _ _) rfl ?_).mpr ⟨nofun, rfl⟩
  rw [RollupBatch.honest_iff]
  change applyTransaction zeroHash SampleRollup.txHash ≠ zeroHash
  rw [SampleRollup.applyTransaction_txHash]
  decide

/-- Nothing can be done about a batch without transactions. -/
theorem fraudProofs_not_complete :
    ¬ ∀ (calls : List Call) (batchId : UInt64) (info : BatchInfo),
      (run calls).batches[batchId]? = some info → info.finalized = false → ¬ info.batch.Honest →
        (run calls).CompleteAt batchId := by
  intro claim
  let batch := SampleRollup.batch [] (.ofNat 32 1)
  have found := SampleRollup.submitted_batches [] (.ofNat 32 1)
  have dishonest : ¬ batch.Honest := by decide
  obtain ⟨proof, generated, -⟩ := claim [.submitBatch batch] 1 _ found rfl dishonest
  have stuck := generateFraudProof_eq found dishonest
  cases stuck.symm.trans generated

/-- Up to 2^32 transactions the disputed transaction is the last one. -/
theorem rootAt_disputed {batch : RollupBatch} (some_ : batch.transactions ≠ [])
    (few : batch.transactions.length ≤ 2 ^ 32) :
    batch.rootAt ((batch.transactions.length - 1) % 2 ^ 32 + 1) =
      replay batch.stateRootBefore batch.transactions := by
  have positive := List.length_pos_iff.mpr some_
  rw [Nat.mod_eq_of_lt (by omega)]
  exact RollupBatch.rootAt_of_le (by omega)

end OptimisticRollup

end Parthenon.Rollup
