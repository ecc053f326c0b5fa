import Parthenon.Library.Runs
import Parthenon.Mempool.Calls
import Parthenon.Validation.Validators

namespace Parthenon

open Library Crypto Primitives Chainstate Validation

/-! # The transactions of the mempool

What the calls do to the map of transactions, whatever the indexes beside it say.
-/

namespace Mempool

theorem removeFromRelationships_keeps (pool : Mempool) (txid : Hash) :
    (pool.removeFromRelationships txid).transactions = pool.transactions ∧
      (pool.removeFromRelationships txid).priorityQueue = pool.priorityQueue ∧
      (pool.removeFromRelationships txid).spentOutpoints = pool.spentOutpoints ∧
      (pool.removeFromRelationships txid).totalSize = pool.totalSize ∧
      (pool.removeFromRelationships txid).maxSize = pool.maxSize := by
  unfold removeFromRelationships
  cases pool.parents[txid]? with
  | none => exact ⟨rfl, rfl, rfl, rfl, rfl⟩
  | some parentIds => exact ⟨rfl, rfl, rfl, rfl, rfl⟩

theorem removeTransaction_missing {pool : Mempool} {txid : Hash}
    (missing : pool.transactions[txid]? = none) : pool.removeTransaction txid = (false, pool) := by
  rw [removeTransaction, missing]

/-- What removing a transaction of the pool leaves. -/
theorem removeTransaction_found {pool : Mempool} {txid : Hash} {entry : MempoolEntry}
    (found : pool.transactions[txid]? = some entry) :
    (pool.removeTransaction txid).1 = true ∧
      (pool.removeTransaction txid).2.transactions = pool.transactions.erase txid ∧
      (pool.removeTransaction txid).2.priorityQueue = pool.priorityQueue.erase entry ∧
      (pool.removeTransaction txid).2.spentOutpoints =
        entry.tx.prevouts.foldl (fun spent outpoint => spent.erase outpoint) pool.spentOutpoints ∧
      (pool.removeTransaction txid).2.totalSize = pool.totalSize - entry.size := by
  rw [removeTransaction, found]
  dsimp only
  obtain ⟨transactions, priorityQueue, spentOutpoints, totalSize, _⟩ := removeFromRelationships_keeps
    { pool with
      priorityQueue := pool.priorityQueue.erase entry
      spentOutpoints := entry.tx.prevouts.foldl (fun spent outpoint => spent.erase outpoint)
        pool.spentOutpoints } txid
  rw [transactions, priorityQueue, spentOutpoints, totalSize]
  exact ⟨rfl, rfl, rfl, rfl, rfl⟩

theorem removeTransaction_transactions (pool : Mempool) (txid : Hash) :
    (pool.removeTransaction txid).2.transactions = pool.transactions.erase txid := by
  cases found : pool.transactions[txid]? with
  | none => rw [removeTransaction_missing found, erase_of_missing found]
  | some entry => exact (removeTransaction_found found).2.1

/-- The ancestors change what an entry counts, not what it is. -/
theorem withAncestors_keeps (pool : Mempool) (txid : Hash) (entry : MempoolEntry) :
    (pool.withAncestors txid entry).tx = entry.tx ∧
      (pool.withAncestors txid entry).size = entry.size := by
  unfold withAncestors
  dsimp only
  refine List.foldlRecOn
    (motive := fun total : MempoolEntry => total.tx = entry.tx ∧ total.size = entry.size)
    _ _ ?_ ?_
  · exact ⟨rfl, rfl⟩
  · intro total kept parentId _
    cases pool.transactions[parentId]? with
    | none => exact kept
    | some parent => exact kept

/-- The transactions by their identifiers, whatever their entries count. -/
def sameTransactions (left right : Mempool) : Prop :=
  ∀ txid : Hash, left.transactions[txid]?.map (·.tx) = right.transactions[txid]?.map (·.tx)

theorem refresh_sameTransactions {pool : Mempool} {txid : Hash} {entry refreshed : MempoolEntry}
    (found : pool.transactions[txid]? = some entry) (sameTx : refreshed.tx = entry.tx) :
    sameTransactions (pool.refresh txid entry refreshed) pool := by
  intro other
  rw [refresh, getElem?_insert_eq]
  split
  · rename_i same
    subst other
    rw [found, Option.map_some, Option.map_some, sameTx]
  · rfl

/-- Recording relations changes the relations. -/
theorem updateRelationships_eq (pool : Mempool) (txid : Hash) :
    ∃ children parents, pool.updateRelationships txid = { pool with children, parents } := by
  rw [updateRelationships]
  cases pool.transactions[txid]? with
  | none => exact ⟨pool.children, pool.parents, rfl⟩
  | some entry =>
      apply List.foldlRecOn (motive := fun reached : Mempool =>
        ∃ children parents, reached = { pool with children, parents })
        _ _ ⟨pool.children, pool.parents, rfl⟩
      intro reached kept outpoint _
      obtain ⟨children, parents, isReached⟩ := kept
      rw [isReached]
      split
      · exact ⟨_, _, rfl⟩
      · exact ⟨children, parents, rfl⟩

theorem updateRelationships_keeps (pool : Mempool) (txid : Hash) :
    (pool.updateRelationships txid).transactions = pool.transactions ∧
      (pool.updateRelationships txid).priorityQueue = pool.priorityQueue ∧
      (pool.updateRelationships txid).spentOutpoints = pool.spentOutpoints ∧
      (pool.updateRelationships txid).totalSize = pool.totalSize := by
  obtain ⟨children, parents, isUpdated⟩ := updateRelationships_eq pool txid
  rw [isUpdated]
  exact ⟨rfl, rfl, rfl, rfl⟩

theorem insertEntry_transactions (pool : Mempool) (txid : Hash) (entry : MempoolEntry) :
    (pool.insertEntry txid entry).transactions = pool.transactions.insert txid entry :=
  (updateRelationships_keeps _ txid).1

/-- Nothing is in the pool that was not there before. -/
def Shrinks (pool after : Mempool) : Prop :=
  ∀ (txid : Hash) entry, after.transactions[txid]? = some entry → pool.transactions[txid]? = some entry

theorem Shrinks.refl (pool : Mempool) : pool.Shrinks pool := fun _ _ found => found

theorem Shrinks.trans {pool next after : Mempool} (first : pool.Shrinks next)
    (second : next.Shrinks after) : pool.Shrinks after :=
  fun txid entry found => first txid entry (second txid entry found)

theorem removeTransactions_induction {motive : Mempool → Prop}
    (removed : ∀ reached txid, motive reached → motive (reached.removeTransaction txid).2)
    {pool : Mempool} (initially : motive pool) (txids : List Hash) :
    motive (pool.removeTransactions txids) :=
  List.foldlRecOn txids _ initially fun reached kept txid _ => removed reached txid kept

theorem removeTransactions_transactions (pool : Mempool) (txids : List Hash) :
    (pool.removeTransactions txids).transactions =
      txids.foldl (fun stored txid => stored.erase txid) pool.transactions := by
  induction txids generalizing pool with
  | nil => rfl
  | cons txid rest ih =>
      have next := ih (pool.removeTransaction txid).2
      rw [removeTransaction_transactions] at next
      exact next

theorem removeTransactions_lookup (pool : Mempool) (txids : List Hash) (txid : Hash) :
    (pool.removeTransactions txids).transactions[txid]? =
      if txid ∈ txids then none else pool.transactions[txid]? := by
  rw [removeTransactions_transactions, getElem?_foldl_erase]

theorem removeTransactions_shrinks (pool : Mempool) (txids : List Hash) :
    pool.Shrinks (pool.removeTransactions txids) := by
  intro txid entry found
  rw [removeTransactions_lookup] at found
  split at found
  · cases found
  · exact found

theorem removeTransaction_shrinks (pool : Mempool) (txid : Hash) :
    pool.Shrinks (pool.removeTransaction txid).2 :=
  removeTransactions_shrinks pool [txid]

theorem create_tx (tx : CachedTransaction) (fee : UInt64) (time height : UInt32) (signalsRbf : Bool) :
    (MempoolEntry.create tx fee time height signalsRbf).tx = tx.getSerializedSize.2 := rfl

theorem updateAncestorState_induction {motive : Mempool → Prop}
    (refreshed : ∀ (reached : Mempool) txid entry, reached.transactions[txid]? = some entry →
      motive reached → motive (reached.refresh txid entry (reached.withAncestors txid entry)))
    {fuel : Nat} {pool after : Mempool} {txid : Hash} (initially : motive pool)
    (done : updateAncestorState fuel pool txid = some after) : motive after := by
  induction fuel generalizing pool after txid with
  | zero => cases done
  | succ fuel ih =>
      rw [updateAncestorState] at done
      cases found : pool.transactions[txid]? with
      | none =>
          rw [found] at done
          cases done
          exact initially
      | some entry =>
          rw [found] at done
          exact foldlM_invariant (fun _ _ _ reached taken => ih reached taken)
            (refreshed pool txid entry found initially) done

theorem updateAncestorState_sameTransactions {fuel : Nat} {pool after : Mempool} {txid : Hash}
    (done : updateAncestorState fuel pool txid = some after) : sameTransactions after pool := by
  refine updateAncestorState_induction (motive := fun reached => sameTransactions reached pool) ?_
    (fun _ => rfl) done
  intro reached child entry found same other
  have refreshed := refresh_sameTransactions found (withAncestors_keeps reached child entry).1
  exact (refreshed other).trans (same other)

/-! No call changes the fee the pool asks for. -/

theorem removeTransaction_minRelayFee (pool : Mempool) (txid : Hash) :
    (pool.removeTransaction txid).2.minRelayFee = pool.minRelayFee := by
  unfold removeTransaction
  split
  · rfl
  · dsimp only [removeFromRelationships]
    split <;> rfl

theorem removeTransactions_minRelayFee (pool : Mempool) (txids : List Hash) :
    (pool.removeTransactions txids).minRelayFee = pool.minRelayFee := by
  refine removeTransactions_induction (motive := fun reached => reached.minRelayFee = pool.minRelayFee)
    ?_ rfl txids
  intro reached txid same
  exact (removeTransaction_minRelayFee reached txid).trans same

theorem insertEntry_minRelayFee (pool : Mempool) (txid : Hash) (entry : MempoolEntry) :
    (pool.insertEntry txid entry).minRelayFee = pool.minRelayFee := by
  rw [insertEntry]
  obtain ⟨children, parents, isUpdated⟩ := updateRelationships_eq _ txid
  rw [isUpdated]

theorem updateAncestorState_minRelayFee {fuel : Nat} {pool after : Mempool} {txid : Hash}
    (done : updateAncestorState fuel pool txid = some after) :
    after.minRelayFee = pool.minRelayFee :=
  updateAncestorState_induction (motive := fun reached => reached.minRelayFee = pool.minRelayFee)
    (fun _ _ _ _ same => same) rfl done

/-! ## Eviction -/

theorem evictFrom_enough {required rounds : Nat} {pool : Mempool}
    (enough : pool.totalSize + required ≤ pool.maxSize) :
    evictFrom required (rounds + 1) pool = some pool := by
  rw [evictFrom, if_neg (Nat.not_lt.mpr enough)]

theorem evictFrom_empty {required rounds : Nat} {pool : Mempool}
    (empty : pool.priorityQueue.last? = none) :
    evictFrom required (rounds + 1) pool = some pool := by
  rw [evictFrom, empty]
  split <;> rfl

theorem evictFrom_missing {required rounds : Nat} {pool : Mempool} {queued : MempoolEntry}
    (full : pool.totalSize + required > pool.maxSize)
    (last : pool.priorityQueue.last? = some queued)
    (missing : pool.transactions[queued.tx.getTxID.1]? = none) :
    evictFrom required (rounds + 1) pool = none := by
  rw [evictFrom, if_pos full, last]
  dsimp only
  rw [removeTransaction_missing missing]

theorem evictFrom_turn {required rounds : Nat} {pool : Mempool} {queued entry : MempoolEntry}
    (full : pool.totalSize + required > pool.maxSize)
    (last : pool.priorityQueue.last? = some queued)
    (found : pool.transactions[queued.tx.getTxID.1]? = some entry) :
    evictFrom required (rounds + 1) pool =
      evictFrom required rounds (pool.removeTransaction queued.tx.getTxID.1).2 := by
  obtain ⟨success, _⟩ := removeTransaction_found found
  rw [evictFrom, if_pos full, last]
  dsimp only
  cases removed : pool.removeTransaction queued.tx.getTxID.1 with
  | mk done next =>
      rw [removed] at success
      obtain rfl : done = true := success
      rfl

theorem removeTransaction_size {pool : Mempool} {txid : Hash} {entry : MempoolEntry}
    (found : pool.transactions[txid]? = some entry) :
    (pool.removeTransaction txid).2.transactions.size < pool.transactions.size := by
  have present : pool.transactions.contains txid = true := by
    rw [Std.ExtTreeMap.contains_eq_isSome_getElem?, found]
    rfl
  have nonempty : pool.transactions.size ≠ 0 := by
    intro isEmpty
    have nothing := Std.ExtTreeMap.isEmpty_eq_size_beq_zero (t := pool.transactions)
    rw [isEmpty] at nothing
    rw [Std.ExtTreeMap.isEmpty_iff.mp nothing] at found
    exact not_found_empty found
  rw [removeTransaction_transactions, Std.ExtTreeMap.size_erase, if_pos present]
  omega

theorem evictFrom_induction {motive : Mempool → Prop}
    (removed : ∀ reached txid, motive reached → motive (reached.removeTransaction txid).2)
    {required rounds : Nat} {pool after : Mempool} (initially : motive pool)
    (done : evictFrom required rounds pool = some after) : motive after := by
  induction rounds generalizing pool with
  | zero => cases done
  | succ rounds ih =>
      by_cases full : pool.totalSize + required > pool.maxSize
      · cases last : pool.priorityQueue.last? with
        | none =>
            rw [evictFrom_empty last] at done
            cases done
            exact initially
        | some queued =>
            cases found : pool.transactions[queued.tx.getTxID.1]? with
            | none =>
                rw [evictFrom_missing full last found] at done
                cases done
            | some entry =>
                rw [evictFrom_turn full last found] at done
                exact ih (removed pool _ initially) done
      · rw [evictFrom_enough (Nat.not_lt.mp full)] at done
        cases done
        exact initially

theorem makeRoom_induction {motive : Mempool → Prop}
    (removed : ∀ reached txid, motive reached → motive (reached.removeTransaction txid).2)
    {pool after : Mempool} {size : Nat} (initially : motive pool)
    (done : pool.makeRoom size = some after) : motive after := by
  rw [makeRoom] at done
  split at done
  · exact evictFrom_induction removed initially done
  · cases done
    exact initially

theorem evictFrom_shrinks {required rounds : Nat} {pool after : Mempool}
    (done : evictFrom required rounds pool = some after) : pool.Shrinks after :=
  evictFrom_induction (fun reached txid shrinks => shrinks.trans (removeTransaction_shrinks reached txid))
    (.refl pool) done

theorem makeRoom_shrinks {pool after : Mempool} {size : Nat} (done : pool.makeRoom size = some after) :
    pool.Shrinks after :=
  makeRoom_induction (fun reached txid shrinks => shrinks.trans (removeTransaction_shrinks reached txid))
    (.refl pool) done

theorem makeRoom_minRelayFee {pool after : Mempool} {size : Nat}
    (done : pool.makeRoom size = some after) : after.minRelayFee = pool.minRelayFee := by
  refine makeRoom_induction (motive := fun reached => reached.minRelayFee = pool.minRelayFee) ?_ rfl done
  intro reached txid same
  exact (removeTransaction_minRelayFee reached txid).trans same

/-- What a call that adds the transaction has come to before it stores an entry: a
pool without anything new, and an entry for the transaction unless it is turned down. -/
structure Proposed (pool : Mempool) (tx : CachedTransaction) (utxoSet : UTXOSet) (height : UInt32)
    (ready : Mempool) (pending : Option (Hash × MempoolEntry)) : Prop where
  shrinks : pool.Shrinks ready
  minRelayFee : ready.minRelayFee = pool.minRelayFee
  entry : ∀ txid entry, pending = some (txid, entry) →
    entry.tx.cachedTxID = some txid ∧ entry.tx.toTransaction = tx.toTransaction ∧
      ∃ accepted, pool.validateTransaction tx.getTxID.2 utxoSet height = some (some accepted)

theorem Proposed.rejected {pool ready : Mempool} (shrinks : pool.Shrinks ready)
    (minRelayFee : ready.minRelayFee = pool.minRelayFee) (tx : CachedTransaction)
    (utxoSet : UTXOSet) (height : UInt32) : Proposed pool tx utxoSet height ready none where
  shrinks := shrinks
  minRelayFee := minRelayFee
  entry := by
    intro txid entry pending
    cases pending

theorem Proposed.accepted {pool ready : Mempool} {tx : CachedTransaction} {utxoSet : UTXOSet}
    {height : UInt32} {accepted : UInt64 × Nat} (shrinks : pool.Shrinks ready)
    (minRelayFee : ready.minRelayFee = pool.minRelayFee)
    (valid : pool.validateTransaction tx.getTxID.2 utxoSet height = some (some accepted))
    (fee : UInt64) (time : UInt32) (signalsRbf : Bool) :
    Proposed pool tx utxoSet height ready
      (some (tx.getTxID.1, .create tx.getTxID.2 fee time height signalsRbf)) where
  shrinks := shrinks
  minRelayFee := minRelayFee
  entry := by
    intro txid entry pending
    cases pending
    rw [create_tx, CachedTransaction.getSerializedSize_toTransaction,
      CachedTransaction.getTxID_toTransaction, CachedTransaction.getSerializedSize_cachedTxID]
    exact ⟨CachedTransaction.getTxID_cached tx, rfl, accepted, valid⟩

theorem Replacement.proposed {pool ready : Mempool} {tx : CachedTransaction} {utxoSet : UTXOSet}
    {height time : UInt32} {pending : Option (Hash × MempoolEntry)}
    (reached : Replacement pool tx utxoSet height time ready pending) :
    Proposed pool tx utxoSet height ready pending := by
  cases reached with
  | refused => exact .rejected (.refl pool) rfl tx utxoSet height
  | stored someConflict fee size signalled valid pays =>
      exact .accepted (removeTransactions_shrinks pool _) (removeTransactions_minRelayFee pool _) valid
        fee time _

theorem Addition.proposed {pool ready : Mempool} {tx : CachedTransaction} {utxoSet : UTXOSet}
    {height time : UInt32} {pending : Option (Hash × MempoolEntry)}
    (reached : Addition pool tx utxoSet height time ready pending) :
    Proposed pool tx utxoSet height ready pending := by
  cases reached with
  | refused => exact .rejected (.refl pool) rfl tx utxoSet height
  | replaced absent conflict reached => exact reached.proposed
  | full absent fee size valid noConflict evicted tight =>
      exact .rejected (makeRoom_shrinks evicted) (makeRoom_minRelayFee evicted) tx utxoSet height
  | stored absent fee size valid noConflict evicted room =>
      exact .accepted (makeRoom_shrinks evicted) (makeRoom_minRelayFee evicted) valid fee time _

/-- After an addition the pool holds what it held before and the transaction, if
that one was valid. -/
theorem addTransaction_contents {fuel : Nat} {pool after : Mempool} {tx : CachedTransaction}
    {utxoSet : UTXOSet} {height time : UInt32} {result : Bool}
    (done : pool.addTransaction fuel tx utxoSet height time = some (result, after)) :
    after.minRelayFee = pool.minRelayFee ∧
    ∀ (txid : Hash) entry, after.transactions[txid]? = some entry →
      (∃ held, pool.transactions[txid]? = some held ∧ held.tx = entry.tx) ∨
      (entry.tx.toTransaction = tx.toTransaction ∧
        ∃ accepted, pool.validateTransaction tx.getTxID.2 utxoSet height = some (some accepted)) := by
  unfold addTransaction at done
  cases outcome : pool.prepareAddition tx utxoSet height time with
  | none =>
      rw [outcome] at done
      cases done
  | some prepared =>
      obtain ⟨ready, pending⟩ := prepared
      have proposed := (prepareAddition_cases outcome).proposed
      rw [outcome] at done
      cases pending with
      | none =>
          cases done
          exact ⟨proposed.minRelayFee,
            fun txid entry found => .inl ⟨entry, proposed.shrinks txid entry found, rfl⟩⟩
      | some stored =>
          obtain ⟨storedID, storedEntry⟩ := stored
          obtain ⟨_, sameTx, valid⟩ := proposed.entry storedID storedEntry rfl
          obtain ⟨updated, isUpdated, same⟩ := Option.map_eq_some_iff.mp done
          cases same
          refine ⟨?_, ?_⟩
          · rw [updateAncestorState_minRelayFee isUpdated, insertEntry_minRelayFee,
              proposed.minRelayFee]
          · intro txid entry found
            have before := updateAncestorState_sameTransactions isUpdated txid
            rw [found, Option.map_some, insertEntry_transactions, getElem?_insert_eq] at before
            split at before
            · have same : entry.tx = storedEntry.tx := Option.some.inj before
              rw [same]
              exact .inr ⟨sameTx, valid⟩
            · obtain ⟨held, isHeld, same⟩ := Option.map_eq_some_iff.mp before.symm
              exact .inl ⟨held, proposed.shrinks txid held isHeld, same⟩

theorem validateTransaction_congr {pool : Mempool} {tx : CachedTransaction} {left right : UTXOSet}
    {height : UInt32}
    (same : ∀ outpoint ∈ tx.prevouts, left.getCoin outpoint = right.getCoin outpoint) :
    pool.validateTransaction tx left height = pool.validateTransaction tx right height := by
  unfold validateTransaction
  dsimp only
  rw [CachedTransaction.getSerializedSize_toTransaction,
    TransactionValidator.validateAgainstUTXO_congr same]

/-- An addition looks at the coins that the transaction spends and at no others. -/
theorem addTransaction_congr {fuel : Nat} {pool : Mempool} {tx : CachedTransaction}
    {left right : UTXOSet} {height time : UInt32}
    (same : ∀ outpoint ∈ tx.prevouts, left.getCoin outpoint = right.getCoin outpoint) :
    pool.addTransaction fuel tx left height time = pool.addTransaction fuel tx right height time := by
  have valid : pool.validateTransaction tx.getTxID.2 left height =
      pool.validateTransaction tx.getTxID.2 right height := by
    apply validateTransaction_congr
    rw [tx.getTxID_toTransaction]
    exact same
  have replaced : pool.prepareReplacement tx.getTxID.2 left height time =
      pool.prepareReplacement tx.getTxID.2 right height time := by
    have validAgain : pool.validateTransaction tx.getTxID.2.getTxID.2 left height =
        pool.validateTransaction tx.getTxID.2.getTxID.2 right height := by
      apply validateTransaction_congr
      rw [CachedTransaction.getTxID_toTransaction, CachedTransaction.getTxID_toTransaction]
      exact same
    unfold prepareReplacement
    dsimp only
    rw [validAgain]
  unfold addTransaction prepareAddition
  dsimp only
  rw [valid, replaced]

theorem relayFeeRate_zero (size : Nat) : relayFeeRate 0 size = some 0 := by
  unfold relayFeeRate
  split
  · rw [if_pos UInt64.zero_le]
    simp
  · rfl

/-- The inputs of a transaction that the pool finds valid are coins.  A coinbase,
which spends none, pays no fee. -/
theorem validateTransaction_inputs {pool : Mempool} {tx : CachedTransaction} {utxoSet : UTXOSet}
    {height : UInt32} {accepted : UInt64 × Nat} (asksFee : pool.minRelayFee ≠ 0)
    (valid : pool.validateTransaction tx utxoSet height = some (some accepted)) :
    ∀ outpoint ∈ tx.prevouts, ∃ coin, utxoSet.getCoin outpoint = some coin := by
  unfold validateTransaction at valid
  dsimp only at valid
  rw [CachedTransaction.getSerializedSize_toTransaction] at valid
  split at valid
  · cases valid
  · cases checked : TransactionValidator.validateAgainstUTXO tx.toTransaction utxoSet height with
    | error reason =>
        rw [checked] at valid
        cases valid
    | ok result =>
        cases shape : tx.isCoinbase with
        | false =>
            intro outpoint spends
            obtain ⟨coin, found, _⟩ := TransactionValidator.inputs_found shape checked outpoint spends
            exact ⟨coin, found⟩
        | true =>
            obtain rfl : TransactionValidator.UTXOValidationResult.empty = result := by
              rw [TransactionValidator.validateAgainstUTXO, shape] at checked
              exact Except.ok.inj checked
            have noFee : ¬ totalAmount TransactionValidator.UTXOValidationResult.empty.inputAmounts >
                totalAmount TransactionValidator.UTXOValidationResult.empty.outputAmounts := by decide
            have unpaid : (0 : UInt64) < pool.minRelayFee := UInt64.pos_iff_ne_zero.mpr asksFee
            rw [checked] at valid
            simp only [if_neg noFee, relayFeeRate_zero, if_pos unpaid] at valid
            cases valid

end Mempool

end Parthenon
