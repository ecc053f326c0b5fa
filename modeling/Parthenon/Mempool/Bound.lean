import Parthenon.Mempool.EvictionEnds

namespace Parthenon

open Library Crypto Primitives Chainstate

/-! # The bound of the pool

An addition makes room before it stores an entry and a replacement does not.
Eviction stops when there is room and never looks at the newcomer.
-/

/-! ## Rejected transactions

A replacement that is turned down has changed nothing.  An addition is turned down
once more after eviction, and what was evicted by then is gone.
-/

namespace Mempool

/-- The addition gets as far as eviction, every queued entry is evicted, and there is
no room still. -/
structure EvictsInVain (pool : Mempool) (tx : CachedTransaction) (utxoSet : UTXOSet)
    (height : UInt32) : Prop where
  absent : pool.transactions[tx.getTxID.1]? = none
  valid : ∃ fee size,
    pool.validateTransaction tx.getTxID.2 utxoSet height = some (some (fee, size))
  noConflict : pool.hasConflict tx.getTxID.2 = false
  queued : pool.priorityQueue.toList ≠ []
  live : pool.Live
  tight : pool.totalSize - pool.evictable (fun _ => true) + sizeOf tx > pool.maxSize

theorem makeRoom_maxSize {pool after : Mempool} {size : Nat} (done : pool.makeRoom size = some after) :
    after.maxSize = pool.maxSize := by
  refine makeRoom_induction (motive := fun reached => reached.maxSize = pool.maxSize) ?_ rfl done
  intro reached txid same
  exact (removeTransaction_maxSize reached txid).trans same

/-- Eviction that starts takes the transaction of the last entry out. -/
theorem evictTransactions_changes {required : Nat} {pool after : Mempool} {queued : MempoolEntry}
    (full : pool.totalSize + required > pool.maxSize)
    (last : pool.priorityQueue.last? = some queued)
    (done : pool.evictTransactions required = some after) : after ≠ pool := by
  rw [evictTransactions] at done
  cases found : pool.transactions[queued.tx.getTxID.1]? with
  | none =>
      rw [evictFrom_missing full last found] at done
      cases done
  | some entry =>
      rw [evictFrom_turn full last found] at done
      have shrinks := evictFrom_shrinks done
      intro same
      rw [same] at shrinks
      have kept := shrinks _ entry found
      rw [removeTransaction_transactions, getElem?_erase_eq, if_pos rfl] at kept
      cases kept

theorem replaceTransaction_rejected {fuel : Nat} {pool after : Mempool} {tx : CachedTransaction}
    {utxoSet : UTXOSet} {height time : UInt32}
    (rejected : pool.replaceTransaction fuel tx utxoSet height time = some (false, after)) :
    after = pool := by
  have prepared := storePrepared_false.mp rejected
  cases prepareReplacement_cases prepared with
  | refused => rfl

/-- A rejected addition has changed the pool only where it evicted in vain. -/
theorem addTransaction_rejected {fuel : Nat} {pool after : Mempool} {tx : CachedTransaction}
    {utxoSet : UTXOSet} {height time : UInt32}
    (rejected : pool.addTransaction fuel tx utxoSet height time = some (false, after)) :
    after = pool ∨ pool.EvictsInVain tx utxoSet height := by
  have prepared := storePrepared_false.mp rejected
  cases prepareAddition_cases prepared with
  | refused => exact .inl rfl
  | replaced absent conflict reached =>
      cases reached with
      | refused => exact .inl rfl
  | full absent fee size valid noConflict evicted tight =>
      have sameMax := makeRoom_maxSize evicted
      rw [makeRoom] at evicted
      split at evicted
      · rename_i full
        obtain ⟨live, stillTight⟩ := (evictFrom_inVain_iff (Nat.lt_succ_self _)).mp
          ⟨after, evicted, sameMax ▸ tight⟩
        by_cases nothing : pool.priorityQueue.toList = []
        · have empty : pool.priorityQueue.last? = none := by
            rw [KeyedSet.last?, nothing]
            rfl
          rw [evictTransactions, evictFrom_empty empty] at evicted
          cases evicted
          exact .inl rfl
        · exact .inr ⟨absent, ⟨fee, size, valid⟩, noConflict, nothing, live, stillTight⟩
      · cases evicted
        exact .inl rfl

/-- A rejected call leaves the pool as it was, unless it evicts in vain. -/
theorem rejection_keeps_iff (pool : Mempool) (tx : CachedTransaction) (utxoSet : UTXOSet)
    (height time : UInt32) :
    ((∀ fuel after, pool.addTransaction fuel tx utxoSet height time = some (false, after) →
        after = pool) ∧
      ∀ fuel after, pool.replaceTransaction fuel tx utxoSet height time = some (false, after) →
        after = pool) ↔ ¬ pool.EvictsInVain tx utxoSet height := by
  constructor
  · intro keeps inVain
    obtain ⟨absent, ⟨fee, size, valid⟩, noConflict, queued, live, tight⟩ := inVain
    have full : pool.totalSize + sizeOf tx > pool.maxSize := by omega
    obtain ⟨after, evicted, stillTight⟩ :=
      (evictFrom_inVain_iff (Nat.lt_succ_self _)).mpr ⟨live, tight⟩
    have roomFor : pool.makeRoom (sizeOf tx) = some after := by
      rw [makeRoom, if_pos full]
      exact evicted
    have prepared := prepareAddition_makeRoom time absent valid noConflict roomFor
    rw [makeRoom_maxSize roomFor, if_pos stillTight] at prepared
    have same := keeps.1 0 after (storePrepared_false.mpr prepared)
    obtain ⟨last, isLast⟩ := Option.ne_none_iff_exists'.mp fun none =>
      queued (List.getLast?_eq_none_iff.mp none)
    exact evictTransactions_changes full isLast evicted same
  · intro room
    refine ⟨?_, fun fuel after rejected => replaceTransaction_rejected rejected⟩
    intro fuel after rejected
    exact (addTransaction_rejected rejected).resolve_right room

/-- The pool of one transaction with a bound of ten bytes. -/
def Tie.boundedPool : Mempool := Tie.pool.setMaxSize 10

theorem Tie.boundedPool_reached : Run PoolStep fresh
    ([] ++ [.call (.addTransaction Tie.first Tie.utxoSet 200 0)] ++ [.setMaxSize 10])
    Tie.boundedPool := by
  have first : fresh.PoolStep (.call (.addTransaction Tie.first Tie.utxoSet 200 0)) Tie.pool :=
    Tie.first_step
  have second : Tie.pool.PoolStep (.setMaxSize 10) Tie.boundedPool := by
    rw [PoolStep, Tie.boundedPool]
  exact (Run.start.step first).step second

/-- A transaction that is too large for the pool empties it and is rejected. -/
theorem oversized_addition_empties :
    Run PoolStep fresh
      ([] ++ [.call (.addTransaction Tie.first Tie.utxoSet 200 0)] ++ [.setMaxSize 10])
      Tie.boundedPool ∧
    (Tie.boundedPool.addTransaction 0 Tie.second Tie.utxoSet 200 0).map
        (fun outcome => (outcome.1, outcome.2.transactions.size)) = some (false, 0) ∧
      Tie.boundedPool.transactions.size = 1 ∧
      ¬ ∀ fuel after, Tie.boundedPool.addTransaction fuel Tie.second Tie.utxoSet 200 0 =
        some (false, after) → after = Tie.boundedPool := by
  have emptied : (Tie.boundedPool.addTransaction 0 Tie.second Tie.utxoSet 200 0).map
      (fun outcome => (outcome.1, outcome.2.transactions.size)) = some (false, 0) := by
    decide +kernel
  have one : Tie.boundedPool.transactions.size = 1 := by decide +kernel
  refine ⟨Tie.boundedPool_reached, emptied, one, ?_⟩
  intro keeps
  obtain ⟨⟨result, after⟩, outcome, shown⟩ := Option.map_eq_some_iff.mp emptied
  obtain ⟨isFalse, isEmpty⟩ := Prod.mk.inj shown
  dsimp only at isFalse isEmpty
  rw [isFalse] at outcome
  rw [keeps 0 after outcome, one] at isEmpty
  cases isEmpty

end Mempool

namespace Mempool

/-- The effective fee rate of the transaction as a newcomer. -/
def newcomerRate (tx : CachedTransaction) (fee : UInt64) : UInt64 :=
  (entryFor tx fee 0 0).getEffectiveFeeRate

/-- The entries that are in the pool before and not after. -/
def TakenOut (pool after : Mempool) (entry : MempoolEntry) : Prop :=
  ∃ txid : Hash, pool.transactions[txid]? = some entry ∧ after.transactions[txid]? = none

/-- The entries whose effective rate is at most the given one. -/
def atMost (rate : UInt64) (entry : MempoolEntry) : Bool := entry.getEffectiveFeeRate ≤ rate

/-! ## What calls leave of the total -/

theorem insertEntry_totals (pool : Mempool) (txid : Hash) (entry : MempoolEntry) :
    (pool.insertEntry txid entry).totalSize = pool.totalSize + entry.size ∧
      (pool.insertEntry txid entry).maxSize = pool.maxSize := by
  rw [insertEntry]
  obtain ⟨children, parents, isUpdated⟩ := updateRelationships_eq _ txid
  rw [isUpdated]
  exact ⟨rfl, rfl⟩

theorem updateAncestorState_totals {fuel : Nat} {pool after : Mempool} {txid : Hash}
    (done : updateAncestorState fuel pool txid = some after) :
    after.totalSize = pool.totalSize ∧ after.maxSize = pool.maxSize :=
  updateAncestorState_induction (motive := fun reached =>
    reached.totalSize = pool.totalSize ∧ reached.maxSize = pool.maxSize)
    (fun _ _ _ _ same => same) ⟨rfl, rfl⟩ done

/-- An accepted call adds the size of the transaction to what it came to. -/
theorem stored_totals {fuel : Nat} {after : Mempool}
    {outcome : Option (Mempool × Option (Hash × MempoolEntry))}
    (done : storePrepared fuel outcome = some (true, after)) :
    ∃ ready txid entry, outcome = some (ready, some (txid, entry)) ∧
      after.totalSize = ready.totalSize + entry.size ∧ after.maxSize = ready.maxSize ∧
      sameTransactions after (ready.insertEntry txid entry) := by
  obtain ⟨ready, txid, entry, prepared, updated⟩ := storePrepared_true done
  obtain ⟨total, most⟩ := updateAncestorState_totals updated
  obtain ⟨inserted, bound⟩ := insertEntry_totals ready txid entry
  exact ⟨ready, txid, entry, prepared, total.trans inserted, most.trans bound,
    updateAncestorState_sameTransactions updated⟩

theorem removeTransactions_maxSize (pool : Mempool) (txids : List Hash) :
    (pool.removeTransactions txids).maxSize = pool.maxSize := by
  refine removeTransactions_induction (motive := fun reached => reached.maxSize = pool.maxSize) ?_ rfl txids
  intro reached txid same
  exact (removeTransaction_maxSize reached txid).trans same

/-- What removing transactions frees. -/
theorem removeTransactions_totalSize {pool : Mempool} {txids : List Hash} (distinct : txids.Nodup) :
    (pool.removeTransactions txids).totalSize =
      pool.totalSize - (txids.map fun txid => (pool.transactions[txid]?.map (·.size)).getD 0).sum := by
  induction txids generalizing pool with
  | nil => rfl
  | cons txid rest ih =>
      obtain ⟨notLater, restDistinct⟩ := List.nodup_cons.mp distinct
      have others : rest.map (fun other =>
          ((pool.removeTransaction txid).2.transactions[other]?.map (·.size)).getD 0) =
          rest.map fun other => (pool.transactions[other]?.map (·.size)).getD 0 := by
        apply List.map_congr_left
        intro other member
        have apart : txid ≠ other := by
          intro same
          exact notLater (same ▸ member)
        rw [removeTransaction_transactions, getElem?_erase_eq, if_neg apart]
      have first : (pool.removeTransaction txid).2.totalSize =
          pool.totalSize - (pool.transactions[txid]?.map (·.size)).getD 0 := by
        cases found : pool.transactions[txid]? with
        | none =>
            rw [removeTransaction_missing found]
            rfl
        | some entry => exact (removeTransaction_found found).2.2.2.2
      rw [removeTransactions, List.foldl_cons, ← removeTransactions, ih restDistinct, others, first,
        Nat.sub_sub, List.map_cons, List.sum_cons]

/-! ## Which entries are evicted -/

theorem rate_of_priority {left right : MempoolEntry} (same : left.priority = right.priority) :
    left.getEffectiveFeeRate = right.getEffectiveFeeRate := congrArg Priority.feeRate same

/-- The last entry of the queue has the least rate. -/
theorem last_rate_least {pool : Mempool} {last queued : MempoolEntry}
    (isLast : pool.priorityQueue.last? = some last) (member : queued ∈ pool.priorityQueue) :
    last.getEffectiveFeeRate ≤ queued.getEffectiveFeeRate := by
  have order := KeyedSet.last?_greatest isLast member
  have byRate : (compare last.getEffectiveFeeRate queued.getEffectiveFeeRate).isLE = true := by
    change (compareLex Priority.byFeeRate (compareOn Priority.time) queued.priority
      last.priority).isLE = true at order
    unfold compareLex at order
    change ((compare last.getEffectiveFeeRate queued.getEffectiveFeeRate).then _).isLE = true at order
    cases rates : compare last.getEffectiveFeeRate queued.getEffectiveFeeRate with
    | lt => rfl
    | eq => rfl
    | gt =>
        rw [rates] at order
        cases order
  exact Std.isLE_compare.mp byRate

/-- Where the last entry is above a rate, there is nothing of at most that rate. -/
theorem evictable_above {pool : Mempool} {last : MempoolEntry} {rate : UInt64}
    (isLast : pool.priorityQueue.last? = some last) (above : atMost rate last = false) :
    pool.evictable (atMost rate) = 0 := by
  have nothing : pool.priorityQueue.toList.filter (atMost rate) = [] := by
    rw [List.filter_eq_nil_iff]
    intro queued listed low
    have least := last_rate_least isLast (KeyedSet.mem_toList.mp listed)
    have lastLow : atMost rate last = true :=
      decide_eq_true (UInt64.le_trans least (of_decide_eq_true low))
    rw [above] at lastLow
    cases lastLow
  rw [evictable, nothing]
  rfl

/-- What is taken out from a turn on is the entry of that turn and what is taken out later. -/
theorem takenOut_turn {pool after : Mempool} {txid : Hash} {entry : MempoolEntry}
    (found : pool.transactions[txid]? = some entry)
    (shrinks : (pool.removeTransaction txid).2.Shrinks after) (holds : MempoolEntry → Prop) :
    (∀ other, TakenOut pool after other → holds other) ↔
      holds entry ∧ ∀ other, TakenOut (pool.removeTransaction txid).2 after other → holds other := by
  obtain ⟨_, transactions, _, _, _⟩ := removeTransaction_found found
  constructor
  · intro all
    constructor
    · refine all entry ⟨txid, found, absent_of_shrinks shrinks ?_⟩
      rw [transactions, getElem?_erase_eq, if_pos rfl]
    · intro other later
      obtain ⟨otherID, stored, missing⟩ := later
      exact all other ⟨otherID, removeTransaction_shrinks pool txid otherID other stored, missing⟩
  · intro both other taken
    obtain ⟨own, later⟩ := both
    obtain ⟨otherID, stored, missing⟩ := taken
    by_cases same : txid = otherID
    · subst same
      rw [found] at stored
      cases stored
      exact own
    · refine later other ⟨otherID, ?_, missing⟩
      rw [transactions, getElem?_erase_eq, if_neg same, stored]

theorem not_takenOut (pool : Mempool) (entry : MempoolEntry) : ¬ TakenOut pool pool entry := by
  intro out
  obtain ⟨txid, found, missing⟩ := out
  rw [found] at missing
  cases missing

/-- Where eviction makes room, it takes out entries of at most the given rate exactly
when those would have been enough. -/
theorem evictFrom_rates_iff {required rounds : Nat} {pool after : Mempool} (live : pool.Live)
    (done : evictFrom required rounds pool = some after)
    (room : after.totalSize + required ≤ pool.maxSize) (rate : UInt64) :
    (∀ entry, TakenOut pool after entry → entry.getEffectiveFeeRate ≤ rate) ↔
      pool.totalSize - pool.evictable (atMost rate) + required ≤ pool.maxSize := by
  induction rounds generalizing pool with
  | zero => cases done
  | succ rounds ih =>
      by_cases full : pool.totalSize + required > pool.maxSize
      · cases last : pool.priorityQueue.last? with
        | none =>
            rw [evictFrom_empty last] at done
            cases done
            omega
        | some queued =>
            have member := KeyedSet.last?_mem last
            obtain ⟨entry, found, same⟩ := live queued member
            obtain ⟨_, _, _, _, totalSize⟩ := removeTransaction_found found
            rw [evictFrom_turn full last found] at done
            have sameMax := removeTransaction_maxSize pool queued.tx.getTxID.1
            have next := ih (live.removeTransaction _) done (by rw [sameMax]; exact room)
            rw [sameMax, totalSize] at next
            have own : entry.getEffectiveFeeRate ≤ rate ↔ atMost rate queued = true := by
              rw [rate_of_priority same, atMost, decide_eq_true_eq]
            rw [takenOut_turn found (evictFrom_shrinks done), own, next]
            cases low : atMost rate queued with
            | true =>
                rw [evictable_removeTransaction live member found, if_pos low]
                simp [Nat.sub_sub]
            | false =>
                -- The bound is exceeded, and there is nothing to take out.
                rw [evictable_above last low]
                simp only [Bool.false_eq_true, false_and, Nat.sub_zero, false_iff]
                omega
      · rw [evictFrom_enough (Nat.not_lt.mp full)] at done
        cases done
        constructor
        · intro _
          omega
        · intro _ entry out
          exact absurd out (not_takenOut _ entry)

/-! ## Accepted calls -/

/-- What the transactions in conflict with the given one take. -/
def conflictsSize (pool : Mempool) (tx : CachedTransaction) : Nat :=
  ((pool.conflicts tx).map fun txid => (pool.transactions[txid]?.map (·.size)).getD 0).sum

/-- The bound holds after an accepted call, and what was evicted has at most the rate
of the newcomer. -/
structure KeepsBound (pool : Mempool) (tx : CachedTransaction) (utxoSet : UTXOSet) (height : UInt32)
    (after : Mempool) : Prop where
  bound : after.totalSize ≤ after.maxSize
  policy : pool.hasConflict tx.getTxID.2 = false → ∀ fee size,
    pool.validateTransaction tx.getTxID.2 utxoSet height = some (some (fee, size)) →
    ∀ entry, TakenOut pool after entry → entry.getEffectiveFeeRate ≤ newcomerRate tx fee

/-- There is room once the conflicting transactions are gone, or without any conflict
once the entries of at most the newcomer's rate are. -/
structure MakesRoom (pool : Mempool) (tx : CachedTransaction) (utxoSet : UTXOSet) (height : UInt32) :
    Prop where
  replacing : pool.hasConflict tx.getTxID.2 = true →
    pool.totalSize - pool.conflictsSize tx + sizeOf tx ≤ pool.maxSize
  evicting : pool.hasConflict tx.getTxID.2 = false → ∀ fee size,
    pool.validateTransaction tx.getTxID.2 utxoSet height = some (some (fee, size)) →
    pool.totalSize - pool.evictable (atMost (newcomerRate tx fee)) + sizeOf tx ≤ pool.maxSize

theorem conflicts_nodup (pool : Mempool) (tx : CachedTransaction) : (pool.conflicts tx).Nodup := by
  rw [conflicts, getConflictingTransactions]
  refine List.Pairwise.imp ?_ Std.ExtTreeSet.distinct_toList
  intro left right different same
  exact different (same ▸ Std.ReflCmp.compare_self)

theorem hasConflict_of_conflicts {pool : Mempool} {tx : CachedTransaction}
    (someConflict : pool.conflicts tx ≠ []) : pool.hasConflict tx.getTxID.2 = true := by
  obtain ⟨txid, member⟩ := List.exists_mem_of_ne_nil _ someConflict
  rw [conflicts, getConflictingTransactions, Std.ExtTreeSet.mem_toList, Std.ExtTreeSet.mem_ofList,
    List.contains_iff_mem] at member
  obtain ⟨outpoint, spends, spent⟩ := List.mem_filterMap.mp member
  exact List.any_eq_true.mpr ⟨outpoint, spends, by rw [spent]; rfl⟩

theorem Replacement.keepsBound_iff_makesRoom {pool ready after : Mempool} {tx : CachedTransaction}
    {utxoSet : UTXOSet} {height time : UInt32} {txid : Hash} {entry : MempoolEntry}
    (reached : Replacement pool tx utxoSet height time ready (some (txid, entry)))
    (total : after.totalSize = ready.totalSize + entry.size) (most : after.maxSize = ready.maxSize) :
    pool.KeepsBound tx utxoSet height after ↔ pool.MakesRoom tx utxoSet height := by
  cases reached with
  | stored someConflict fee size signalled valid pays =>
      have conflict := hasConflict_of_conflicts someConflict
      have isTotal : after.totalSize = pool.totalSize - pool.conflictsSize tx + sizeOf tx := by
        rw [total, removeTransactions_totalSize (conflicts_nodup pool tx)]
        rfl
      rw [removeTransactions_maxSize] at most
      constructor
      · intro keeps
        refine ⟨fun _ => ?_, fun none => absurd conflict (by rw [none]; decide)⟩
        rw [← isTotal, ← most]
        exact keeps.bound
      · intro room
        refine ⟨?_, fun none => absurd conflict (by rw [none]; decide)⟩
        rw [isTotal, most]
        exact room.replacing conflict

/-- After an accepted call what was there before and is not there any more is what
the call had taken out when it stored the entry. -/
theorem takenOut_iff {pool ready after : Mempool} {txid : Hash} {entry : MempoolEntry}
    (absent : pool.transactions[txid]? = none)
    (same : sameTransactions after (ready.insertEntry txid entry)) (other : MempoolEntry) :
    TakenOut pool after other ↔ TakenOut pool ready other := by
  have kept (otherID : Hash) (different : txid ≠ otherID) :
      after.transactions[otherID]? = none ↔ ready.transactions[otherID]? = none := by
    have stored := same otherID
    rw [insertEntry_transactions, getElem?_insert_eq, if_neg different] at stored
    rw [← Option.map_eq_none_iff, stored, Option.map_eq_none_iff]
  constructor
  · intro out
    obtain ⟨otherID, found, missing⟩ := out
    exact ⟨otherID, found, (kept otherID (ne_of_absent absent found)).mp missing⟩
  · intro out
    obtain ⟨otherID, found, missing⟩ := out
    exact ⟨otherID, found, (kept otherID (ne_of_absent absent found)).mpr missing⟩

theorem makeRoom_rates_iff {pool ready : Mempool} {size : Nat} (live : pool.Live)
    (evicted : pool.makeRoom size = some ready) (room : ready.totalSize + size ≤ ready.maxSize)
    (rate : UInt64) :
    (∀ entry, TakenOut pool ready entry → entry.getEffectiveFeeRate ≤ rate) ↔
      pool.totalSize - pool.evictable (atMost rate) + size ≤ pool.maxSize := by
  rw [makeRoom_maxSize evicted] at room
  rw [makeRoom] at evicted
  split at evicted
  · exact evictFrom_rates_iff live evicted room rate
  · cases evicted
    constructor
    · intro _
      omega
    · intro _ entry out
      exact absurd out (not_takenOut _ entry)

theorem Addition.keepsBound_iff_makesRoom {pool ready after : Mempool} {tx : CachedTransaction}
    {utxoSet : UTXOSet} {height time : UInt32} {txid : Hash} {entry : MempoolEntry} (live : pool.Live)
    (reached : Addition pool tx utxoSet height time ready (some (txid, entry)))
    (total : after.totalSize = ready.totalSize + entry.size) (most : after.maxSize = ready.maxSize)
    (same : sameTransactions after (ready.insertEntry txid entry)) :
    pool.KeepsBound tx utxoSet height after ↔ pool.MakesRoom tx utxoSet height := by
  cases reached with
  | replaced absent conflict reached => exact reached.keepsBound_iff_makesRoom total most
  | stored absent fee size valid noConflict evicted room =>
      have policy (fee : UInt64) := makeRoom_rates_iff live evicted room (newcomerRate tx fee)
      constructor
      · intro keeps
        refine ⟨fun conflict => absurd conflict (by rw [noConflict]; decide), ?_⟩
        intro _ fee size valid
        apply (policy fee).mp
        intro other out
        exact keeps.policy noConflict fee size valid other ((takenOut_iff absent same other).mpr out)
      · intro makesRoom
        refine ⟨?_, ?_⟩
        · rw [total, most]
          exact room
        · intro _ fee size valid other out
          exact (policy fee).mpr (makesRoom.evicting noConflict fee size valid) other
            ((takenOut_iff absent same other).mp out)

/-- After a run of calls that store new identifiers an accepted transaction keeps the
bound and the policy exactly when the pool makes room for it. -/
theorem keepsBound_iff {limit : Nat} {calls : List PoolCall} {pool after : Mempool}
    (run : Run FreshIDStep (fresh.setMaxSize limit) calls pool) {tx : CachedTransaction}
    {utxoSet : UTXOSet} {height time : UInt32} {fuel : Nat}
    (accepted : pool.addTransaction fuel tx utxoSet height time = some (true, after) ∨
      pool.replaceTransaction fuel tx utxoSet height time = some (true, after)) :
    pool.KeepsBound tx utxoSet height after ↔ pool.MakesRoom tx utxoSet height := by
  have initially : (fresh.setMaxSize limit).Linked := .of_empty rfl rfl
  have linked : pool.Linked := run.invariant initially fun _ _ _ => step_linked
  cases accepted with
  | inl added =>
      obtain ⟨ready, txid, entry, prepared, total, most, same⟩ := stored_totals added
      exact (prepareAddition_cases prepared).keepsBound_iff_makesRoom linked.live total most same
  | inr replaced =>
      obtain ⟨ready, txid, entry, prepared, total, most, _⟩ := stored_totals replaced
      exact (prepareReplacement_cases prepared).keepsBound_iff_makesRoom total most

/-! A pool with room for one transaction. -/
namespace RoomForOne

def start : Mempool := fresh.setMaxSize 62

def valuable : Option (Bool × Mempool) := start.addTransaction 1 Tie.first Tie.utxoSet 200 0

def poolOfValuable : Mempool := (valuable.map Prod.snd).getD fresh

/-- A transaction with a fee of one. -/
def cheap : CachedTransaction :=
  .ofTransaction (Sample.spend Tie.secondOutpoint .empty [Sample.output 1999 ⟨[1], ByteVector.one_fits⟩])

def evicting : Option (Bool × Mempool) := poolOfValuable.addTransaction 1 cheap Tie.utxoSet 200 0

def poolOfCheap : Mempool := (evicting.map Prod.snd).getD fresh

def replaceable : Option (Bool × Mempool) := start.addTransaction 1 StaleID.original Tie.utxoSet 200 0

def poolOfReplaceable : Mempool := (replaceable.map Prod.snd).getD fresh

/-- A replacement with one more output. -/
def larger : CachedTransaction :=
  .ofTransaction (Sample.spend Tie.secondOutpoint .empty
    [Sample.output 100 ⟨[1], ByteVector.one_fits⟩, Sample.output 100 ⟨[1], ByteVector.one_fits⟩])

def replacing : Option (Bool × Mempool) :=
  poolOfReplaceable.replaceTransaction 1 larger Tie.utxoSet 200 0

def poolOfLarger : Mempool := (replacing.map Prod.snd).getD fresh

/-- All four calls return true.  The entry of rate sixteen makes way for the cheap one, and the
larger transaction is more than the pool may hold. -/
theorem outcome :
    (valuable.map Prod.fst = some true ∧ evicting.map Prod.fst = some true ∧
      replaceable.map Prod.fst = some true ∧ replacing.map Prod.fst = some true) ∧
    (poolOfValuable.transactions[Tie.first.getTxID.1]?.map MempoolEntry.getEffectiveFeeRate =
        some 16 ∧
      poolOfCheap.transactions[Tie.first.getTxID.1]? = none ∧
      poolOfValuable.hasConflict cheap.getTxID.2 = false ∧
      poolOfValuable.validateTransaction cheap.getTxID.2 Tie.utxoSet 200 = some (some (1, 62)) ∧
      ¬ 16 ≤ newcomerRate cheap 1) ∧
    ¬ poolOfLarger.totalSize ≤ poolOfLarger.maxSize := by
  decide +kernel

theorem valuable_run : Run FreshIDStep start
    ([] ++ [.call (.addTransaction Tie.first Tie.utxoSet 200 0)]) poolOfValuable := by
  have taken : start.PoolStep (.call (.addTransaction Tie.first Tie.utxoSet 200 0)) poolOfValuable :=
    ⟨1, true, returned outcome.1.1 fresh⟩
  exact Run.start.step ⟨taken, trivial⟩

theorem replaceable_run : Run FreshIDStep start
    ([] ++ [.call (.addTransaction StaleID.original Tie.utxoSet 200 0)]) poolOfReplaceable := by
  have taken : start.PoolStep (.call (.addTransaction StaleID.original Tie.utxoSet 200 0))
      poolOfReplaceable := ⟨1, true, returned outcome.1.2.2.1 fresh⟩
  exact Run.start.step ⟨taken, trivial⟩

end RoomForOne

theorem keepsBound_iff_first :
    RoomForOne.start.KeepsBound Tie.first Tie.utxoSet 200 RoomForOne.poolOfValuable ↔
      RoomForOne.start.MakesRoom Tie.first Tie.utxoSet 200 :=
  keepsBound_iff (.start) (.inl (returned RoomForOne.outcome.1.1 fresh))

/-- A transaction of rate sixteen is evicted for one of rate zero, and a replacement
leaves more in the pool than its bound. -/
theorem accepted_calls_break_bound_and_policy :
    (Run FreshIDStep RoomForOne.start ([] ++ [.call (.addTransaction Tie.first Tie.utxoSet 200 0)])
        RoomForOne.poolOfValuable ∧
      RoomForOne.poolOfValuable.addTransaction 1 RoomForOne.cheap Tie.utxoSet 200 0 =
        some (true, RoomForOne.poolOfCheap) ∧
      ¬ RoomForOne.poolOfValuable.KeepsBound RoomForOne.cheap Tie.utxoSet 200 RoomForOne.poolOfCheap) ∧
    (Run FreshIDStep RoomForOne.start
        ([] ++ [.call (.addTransaction StaleID.original Tie.utxoSet 200 0)])
        RoomForOne.poolOfReplaceable ∧
      RoomForOne.poolOfReplaceable.replaceTransaction 1 RoomForOne.larger Tie.utxoSet 200 0 =
        some (true, RoomForOne.poolOfLarger) ∧
      ¬ RoomForOne.poolOfLarger.totalSize ≤ RoomForOne.poolOfLarger.maxSize) := by
  obtain ⟨⟨_, evicts, _, replaces⟩, ⟨rates, gone, conflictFree, valid, cheaper⟩, tooLarge⟩ :=
    RoomForOne.outcome
  refine ⟨⟨RoomForOne.valuable_run, returned evicts fresh, ?_⟩,
    RoomForOne.replaceable_run, returned replaces fresh, tooLarge⟩
  intro keeps
  obtain ⟨entry, found, rate⟩ := Option.map_eq_some_iff.mp rates
  have least := keeps.policy conflictFree 1 62 valid entry ⟨_, found, gone⟩
  rw [rate] at least
  exact cheaper least

end Mempool

end Parthenon
