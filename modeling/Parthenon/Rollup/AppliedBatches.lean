import Parthenon.Rollup.ZkRollup

namespace Parthenon.Rollup

open Library Crypto Std

/-! # Batches of applied transactions

A batch lists every transaction that was waiting, and those that fail are listed too.
-/

namespace ZKRollupState

variable (state : ZKRollupState)

def isUsed (nullifier : Hash) : Bool := state.usedNullifiers.getD nullifier.bytes false

/-- The transactions applied in order, each with what `ApplyTransaction` returns for it. -/
def outcomes : ZKRollupState → List PendingTransaction → List (PendingTransaction × Bool)
  | _, [] => []
  | state, tx :: rest =>
      let (applied, after) := state.applyTransaction tx.toZKTransaction
      (tx, applied) :: outcomes after rest

variable {state}

theorem applyTransaction_ok_iff {tx : ZKTransaction} :
    (state.applyTransaction tx).1 = true ↔ state.isUsed tx.nullifier = false := by
  unfold applyTransaction isUsed
  split
  · rename_i used
    rw [used]
    exact ⟨nofun, nofun⟩
  · rename_i unused
    exact iff_of_true rfl (Bool.eq_false_of_not_eq_true unused)

theorem isUsed_applyTransaction {tx : ZKTransaction} {nullifier : Hash} :
    (state.applyTransaction tx).2.isUsed nullifier = true ↔
      tx.nullifier = nullifier ∨ state.isUsed nullifier = true := by
  unfold applyTransaction
  split
  · rename_i used
    refine ⟨.inr, ?_⟩
    rintro (rfl | earlier)
    · exact used
    · exact earlier
  · have same : tx.nullifier.bytes = nullifier.bytes ↔ tx.nullifier = nullifier :=
      ⟨FixedBytes.ext, congrArg FixedBytes.bytes⟩
    simp only [isUsed, getD_insert_eq, same]
    split
    · exact iff_of_true rfl (.inl ‹_›)
    · rename_i other
      exact (or_iff_right other).symm

/-- After transactions, what was used before them and their own nullifiers are used. -/
theorem isUsed_foldl (pending : List PendingTransaction) (nullifier : Hash) :
    (pending.foldl (fun state tx => (state.applyTransaction tx.toZKTransaction).2) state).isUsed
        nullifier = true ↔
      (∃ tx ∈ pending, tx.nullifier = nullifier) ∨ state.isUsed nullifier = true := by
  induction pending generalizing state with
  | nil => simp
  | cons tx rest ih =>
      rw [List.foldl_cons, ih, isUsed_applyTransaction, List.exists_mem_cons_iff, ← or_assoc,
        or_comm (a := ∃ later ∈ rest, _)]

theorem outcomes_transactions (state : ZKRollupState) (pending : List PendingTransaction) :
    (state.outcomes pending).map Prod.fst = pending := by
  induction pending generalizing state with
  | nil => rfl
  | cons tx rest ih =>
      unfold outcomes
      rw [List.map_cons, ih]

/-- All of the transactions are applied exactly when their nullifiers are new and distinct. -/
theorem outcomes_applied_iff (pending : List PendingTransaction) :
    (∀ outcome ∈ state.outcomes pending, outcome.2 = true) ↔
      (pending.map (·.nullifier)).Nodup ∧ ∀ tx ∈ pending, state.isUsed tx.nullifier = false := by
  induction pending generalizing state with
  | nil => simp [outcomes]
  | cons tx rest ih =>
      have unused (nullifier : Hash) :
          (state.applyTransaction tx.toZKTransaction).2.isUsed nullifier = false ↔
            tx.nullifier ≠ nullifier ∧ state.isUsed nullifier = false := by
        rw [← Bool.not_eq_true, isUsed_applyTransaction, not_or, Bool.not_eq_true]
      unfold outcomes
      rw [List.forall_mem_cons, ih, List.forall_mem_cons, List.map_cons, List.nodup_cons]
      simp only [applyTransaction_ok_iff, unused, List.mem_map, not_exists, not_and]
      constructor
      · rintro ⟨first, distinct, later⟩
        exact ⟨⟨fun other member same => (later other member).1 same.symm, distinct⟩, first,
          fun other member => (later other member).2⟩
      · rintro ⟨⟨apart, distinct⟩, first, later⟩
        exact ⟨first, distinct, fun other member =>
          ⟨fun same => apart other member same.symm, later other member⟩⟩

end ZKRollupState

/-! ## Runs -/

inductive ZKRollupCall
  | addTransaction (tx : PendingTransaction)
  | createBatch
  | submitBatch (batch : ZKRollupBatch)

/-- A batch that `CreateBatch` returned, and what became of its transactions. -/
structure CreatedBatch where
  batch : ZKRollupBatch
  outcomes : List (PendingTransaction × Bool)

structure BatchHistory where
  rollup : ZKRollup
  created : List CreatedBatch

namespace BatchHistory

def start : BatchHistory := ⟨.new, []⟩

variable (history : BatchHistory)

def after : ZKRollupCall → BatchHistory
  | .addTransaction tx => { history with rollup := (history.rollup.addTransaction tx).2 }
  | .createBatch =>
      let (batch, rollup) := history.rollup.createBatch
      let outcomes := history.rollup.state.outcomes history.rollup.pendingTransactions
      ⟨rollup, history.created ++ [⟨batch, outcomes⟩]⟩
  | .submitBatch batch => { history with rollup := (history.rollup.submitBatch batch).2 }

/-- The nullifiers of all transactions that batches list. -/
def nullifiers : List Hash :=
  history.created.flatMap fun created => created.outcomes.map (·.1.nullifier)

/-- Batches list transactions that were applied, and no two of one nullifier. -/
structure OnlyApplied : Prop where
  listed : ∀ created ∈ history.created,
    created.batch.transactionHashes = created.outcomes.map (·.1.txHash)
  applied : ∀ created ∈ history.created, ∀ outcome ∈ created.outcomes, outcome.2 = true
  spentOnce : history.nullifiers.Nodup

/-- A batch is created of transactions with distinct nullifiers that no earlier one used. -/
def Unspent : ZKRollupCall → Prop
  | .createBatch =>
      (history.rollup.pendingTransactions.map (·.nullifier)).Nodup ∧
        ∀ tx ∈ history.rollup.pendingTransactions,
          history.rollup.state.isUsed tx.nullifier = false
  | .addTransaction _ | .submitBatch _ => True

/-- The nullifiers of listed transactions are used, whether these were applied or not. -/
def Recorded : Prop := ∀ nullifier ∈ history.nullifiers, history.rollup.state.isUsed nullifier = true

variable {history}

theorem addTransaction_state (tx : PendingTransaction) :
    (history.rollup.addTransaction tx).2.state = history.rollup.state := by
  unfold ZKRollup.addTransaction
  split
  · rfl
  · rfl

theorem submitBatch_state (batch : ZKRollupBatch) :
    (history.rollup.submitBatch batch).2.state = history.rollup.state := by
  unfold ZKRollup.submitBatch
  split
  · rfl
  split
  · rfl
  split
  · rfl
  · rfl

theorem nullifiers_createBatch : (history.after .createBatch).nullifiers =
    history.nullifiers ++ history.rollup.pendingTransactions.map (·.nullifier) := by
  have transactions :=
    history.rollup.state.outcomes_transactions history.rollup.pendingTransactions
  have names := congrArg (List.map fun tx : PendingTransaction => tx.nullifier) transactions
  rw [List.map_map] at names
  unfold after nullifiers
  rw [List.flatMap_append, List.flatMap_singleton]
  exact congrArg _ names

theorem after_recorded (recorded : history.Recorded) (call : ZKRollupCall) :
    (history.after call).Recorded := by
  cases call with
  | addTransaction tx =>
      intro nullifier listed
      have used := recorded nullifier listed
      rwa [← addTransaction_state tx] at used
  | submitBatch batch =>
      intro nullifier listed
      have used := recorded nullifier listed
      rwa [← submitBatch_state batch] at used
  | createBatch =>
      intro nullifier listed
      rw [nullifiers_createBatch] at listed
      refine (ZKRollupState.isUsed_foldl history.rollup.pendingTransactions nullifier).mpr ?_
      rcases List.mem_append.mp listed with earlier | new
      · exact .inr (recorded nullifier earlier)
      · obtain ⟨tx, member, same⟩ := List.mem_map.mp new
        exact .inl ⟨tx, member, same⟩

/-- A new batch keeps to applied transactions exactly when its nullifiers are unspent. -/
theorem createBatch_onlyApplied_iff (recorded : history.Recorded) (only : history.OnlyApplied) :
    (history.after .createBatch).OnlyApplied ↔ history.Unspent .createBatch := by
  have transactions :=
    history.rollup.state.outcomes_transactions history.rollup.pendingTransactions
  constructor
  · intro kept
    exact (ZKRollupState.outcomes_applied_iff _).mp
      (kept.applied _ (List.mem_append_right _ (List.mem_singleton_self _)))
  · intro unspent
    refine ⟨?_, ?_, ?_⟩
    · refine List.forall_mem_append.mpr ⟨only.listed, List.forall_mem_singleton.mpr ?_⟩
      have hashes := congrArg (List.map PendingTransaction.txHash) transactions
      rw [List.map_map] at hashes
      exact hashes.symm
    · exact List.forall_mem_append.mpr ⟨only.applied,
        List.forall_mem_singleton.mpr ((ZKRollupState.outcomes_applied_iff _).mpr unspent)⟩
    · rw [nullifiers_createBatch, List.nodup_append]
      refine ⟨only.spentOnce, unspent.1, ?_⟩
      rintro nullifier earlier _ new rfl
      obtain ⟨tx, member, rfl⟩ := List.mem_map.mp new
      have used := recorded tx.nullifier earlier
      rw [unspent.2 tx member] at used
      cases used

theorem after_onlyApplied_iff (recorded : history.Recorded) (only : history.OnlyApplied)
    (call : ZKRollupCall) : (history.after call).OnlyApplied ↔ history.Unspent call := by
  cases call with
  | createBatch => exact createBatch_onlyApplied_iff recorded only
  | addTransaction tx => exact iff_of_true ⟨only.listed, only.applied, only.spentOnce⟩ trivial
  | submitBatch batch => exact iff_of_true ⟨only.listed, only.applied, only.spentOnce⟩ trivial

theorem start_recorded : start.Recorded := fun _ listed => absurd listed List.not_mem_nil

theorem start_onlyApplied : start.OnlyApplied :=
  ⟨List.forall_mem_nil _, List.forall_mem_nil _, List.nodup_nil⟩

/-- In a run, batches list applied transactions only, each nullifier once, exactly when every
batch is created of transactions whose nullifiers are distinct and unused. -/
theorem run_onlyApplied_iff (calls : List ZKRollupCall) :
    (∀ count, ((calls.take count).foldl after start).OnlyApplied) ↔
      Obeys Unspent after start calls :=
  (obeys_iff_prefixes Recorded (fun _ call recorded => after_recorded recorded call)
    (fun _ call recorded only => after_onlyApplied_iff recorded only call) start_recorded
    start_onlyApplied calls).symm

/-- A transaction of one nullifier with a proof that the rollup accepts. -/
def sampleTransaction (txHash : Nat) : PendingTransaction where
  nullifier := .ofNat 32 7
  commitment := .ofNat 32 8
  txHash := .ofNat 32 txHash
  transferProof := ZKRollup.new.proofParams.proofOf
    ((FixedBytes.ofNat 32 txHash).bytes ++ (FixedBytes.ofNat 32 7).bytes ++
      (FixedBytes.ofNat 32 8).bytes ++ [])
  encryptedData := []

theorem addTransaction_sample (pending : List PendingTransaction) (txHash : Nat) :
    ({ ZKRollup.new with pendingTransactions := pending } : ZKRollup).addTransaction
        (sampleTransaction txHash) =
      (true, { ZKRollup.new with pendingTransactions := pending ++ [sampleTransaction txHash] }) := by
  have accepted : verifyZkProof (sampleTransaction txHash).transferProof ZKRollup.new.proofParams
      (serializeTransactionInputs (sampleTransaction txHash)) = true := by
    have someInputs : serializeTransactionInputs (sampleTransaction txHash) ≠ [] := by
      intro none
      have length := congrArg List.length none
      simp [serializeTransactionInputs, FixedBytes.length_eq] at length
    have own : (sampleTransaction txHash).transferProof = ZKRollup.new.proofParams.proofOf
        (serializeTransactionInputs (sampleTransaction txHash)) := rfl
    have bare (witness : Bytes) : (ZKRollup.new.proofParams.proofOf witness).publicInputs = [] := rfl
    rw [own, verifyZkProof, bare, if_neg (by simp)]
    exact ZKRollup.new.proofParams.verifyProof_proofOf someInputs
  unfold ZKRollup.addTransaction
  dsimp only
  rw [accepted]
  rfl

/-- Two transactions of one nullifier wait together.  The second fails and is listed. -/
theorem failed_transaction_listed :
    ¬ ∀ (calls : List ZKRollupCall) (count : Nat),
      ((calls.take count).foldl after start).OnlyApplied := by
  intro claim
  have only := claim [.addTransaction (sampleTransaction 1), .addTransaction (sampleTransaction 2),
    .createBatch] 3
  have first := addTransaction_sample [] 1
  have second := addTransaction_sample [sampleTransaction 1] 2
  have waiting : (start.after (.addTransaction (sampleTransaction 1))).after
      (.addTransaction (sampleTransaction 2)) =
        ⟨{ ZKRollup.new with
            pendingTransactions := [sampleTransaction 1, sampleTransaction 2] }, []⟩ := by
    have begun : start.rollup = { ZKRollup.new with pendingTransactions := [] } := rfl
    have unmade : start.created = [] := rfl
    simp only [after, begun, unmade, first, second, List.nil_append, List.cons_append]
  simp only [List.take_succ_cons, List.take_zero, List.foldl_cons, List.foldl_nil, waiting] at only
  have distinct := ((ZKRollupState.outcomes_applied_iff _).mp
    (only.applied _ (List.mem_append_right _ (List.mem_singleton_self _)))).1
  have same : (sampleTransaction 1).nullifier = (sampleTransaction 2).nullifier := rfl
  simp [same] at distinct

end BatchHistory

end Parthenon.Rollup
