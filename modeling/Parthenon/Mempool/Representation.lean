import Parthenon.Mempool.Contents
import Parthenon.Primitives.Block

namespace Parthenon

open Library Crypto Primitives Chainstate Validation

/-! # The indexes of the mempool

The priority queue, the spent outpoints and the total size say again what the
map of transactions says.  They stay in step as long as no transaction is given
the priority of another one: the queue takes two such entries for one.
-/

inductive MempoolCall
  | addTransaction (tx : CachedTransaction) (utxoSet : UTXOSet) (height time : UInt32)
  | replaceTransaction (tx : CachedTransaction) (utxoSet : UTXOSet) (height time : UInt32)
  | removeTransaction (txid : Hash)
  | removeConflicting (confirmedTxs : List CachedTransaction) (utxoSet : UTXOSet) (height : UInt32)
  | updateAncestorState (txid : Hash)

namespace Mempool

/-- A call that returns leaves the pool `after`. -/
def Step (pool : Mempool) (call : MempoolCall) (after : Mempool) : Prop :=
  match call with
  | .addTransaction tx utxoSet height time =>
      ∃ fuel result, pool.addTransaction fuel tx utxoSet height time = some (result, after)
  | .replaceTransaction tx utxoSet height time =>
      ∃ fuel result, pool.replaceTransaction fuel tx utxoSet height time = some (result, after)
  | .removeTransaction txid => after = (pool.removeTransaction txid).2
  | .removeConflicting confirmedTxs utxoSet height =>
      pool.removeConflicting confirmedTxs utxoSet height = some after
  | .updateAncestorState txid => ∃ fuel, updateAncestorState fuel pool txid = some after

/-- What the indexes of the pool should say. -/
structure Represents (pool : Mempool) : Prop where
  priorityQueue : pool.priorityQueue.toList.Perm (pool.transactions.toList.map Prod.snd)
  spentOutpoints : ∀ (outpoint : OutPoint) txid, pool.spentOutpoints[outpoint]? = some txid ↔
    ∃ entry, pool.transactions[txid]? = some entry ∧ outpoint ∈ entry.tx.prevouts
  totalSize : pool.totalSize = (pool.transactions.toList.map fun entry => entry.2.size).sum

/-- No other transaction of the pool has the priority of the entry. -/
def Untied (pool : Mempool) (txid : Hash) (entry : MempoolEntry) : Prop :=
  ∀ (other : Hash) otherEntry, pool.transactions[other]? = some otherEntry → other ≠ txid →
    otherEntry.priority ≠ entry.priority

/-- An ancestor update gives no transaction the priority of another one. -/
def UpdateUntied : Nat → Mempool → Hash → Prop
  | 0, _, _ => True
  | fuel + 1, pool, txid => ∀ entry, pool.transactions[txid]? = some entry →
      pool.Untied txid (pool.withAncestors txid entry) ∧
      EachInTurn (updateAncestorState fuel) (UpdateUntied fuel)
        (pool.refresh txid entry (pool.withAncestors txid entry)) (pool.children.getD txid [])

/-- An entry about to be stored has a transaction identifier and a priority of its own. -/
def StoresUntied (prepared : Option (Mempool × Option (Hash × MempoolEntry))) : Prop :=
  ∀ pool txid entry, prepared = some (pool, some (txid, entry)) →
    pool.transactions[txid]? = none ∧ pool.Untied txid entry ∧
    ∀ fuel, UpdateUntied fuel (pool.insertEntry txid entry) txid

/-- A call that gives no transaction the priority of another one. -/
def Orderly (pool : Mempool) : MempoolCall → Prop
  | .addTransaction tx utxoSet height time =>
      StoresUntied (pool.prepareAddition tx utxoSet height time)
  | .replaceTransaction tx utxoSet height time =>
      StoresUntied (pool.prepareReplacement tx utxoSet height time)
  | .removeTransaction _ => True
  | .removeConflicting _ _ _ => True
  | .updateAncestorState txid => ∀ fuel, UpdateUntied fuel pool txid

def OrderlyStep (pool : Mempool) (call : MempoolCall) (after : Mempool) : Prop :=
  pool.Step call after ∧ pool.Orderly call

/-- The invariant of orderly runs. -/
structure Indexed (pool : Mempool) : Prop where
  queued : ∀ entry, entry ∈ pool.priorityQueue ↔ ∃ txid : Hash, pool.transactions[txid]? = some entry
  apart : ∀ (txid other : Hash) entry otherEntry, pool.transactions[txid]? = some entry →
    pool.transactions[other]? = some otherEntry → entry.priority = otherEntry.priority → txid = other
  spent : ∀ (outpoint : OutPoint) txid, pool.spentOutpoints[outpoint]? = some txid ↔
    ∃ entry, pool.transactions[txid]? = some entry ∧ outpoint ∈ entry.tx.prevouts
  sized : pool.totalSize = total (fun _ entry => entry.size) pool.transactions
  named : ∀ (txid : Hash) entry, pool.transactions[txid]? = some entry →
    entry.tx.cachedTxID = some txid

theorem fresh_indexed : fresh.Indexed where
  queued := by
    intro entry
    constructor
    · intro member
      exact absurd member (KeyedSet.not_mem_empty entry)
    · intro stored
      obtain ⟨txid, found⟩ := stored
      exact absurd found not_found_empty
  apart := by
    intro txid other entry otherEntry found
    exact absurd found not_found_empty
  spent := by
    intro outpoint txid
    constructor
    · intro found
      exact absurd found not_found_empty
    · intro spends
      obtain ⟨entry, found, _⟩ := spends
      exact absurd found not_found_empty
  sized := by
    rw [fresh, total_empty]
  named := by
    intro txid entry found
    exact absurd found not_found_empty

/-- The relations do not matter. -/
theorem Indexed.congr {pool : Mempool} (indexed : pool.Indexed) (other : Mempool)
    (transactions : other.transactions = pool.transactions)
    (priorityQueue : other.priorityQueue = pool.priorityQueue)
    (spentOutpoints : other.spentOutpoints = pool.spentOutpoints)
    (totalSize : other.totalSize = pool.totalSize) : other.Indexed where
  queued := by
    rw [priorityQueue, transactions]
    exact indexed.queued
  apart := by
    rw [transactions]
    exact indexed.apart
  spent := by
    rw [spentOutpoints, transactions]
    exact indexed.spent
  sized := by
    rw [totalSize, transactions]
    exact indexed.sized
  named := by
    rw [transactions]
    exact indexed.named

/-! ### One entry written or taken out -/

/-- Another transaction than `txid` is stored under its own identifier. -/
theorem ne_of_absent {pool : Mempool} {txid other : Hash} {entry : MempoolEntry}
    (absent : pool.transactions[txid]? = none) (stored : pool.transactions[other]? = some entry) :
    txid ≠ other := by
  intro same
  subst other
  rw [absent] at stored
  cases stored

/-- Taking an entry out of the queue leaves the entries of the other transactions. -/
theorem Indexed.mem_erase {pool : Mempool} (indexed : pool.Indexed) {txid : Hash}
    {entry : MempoolEntry} (found : pool.transactions[txid]? = some entry) (queued : MempoolEntry) :
    queued ∈ pool.priorityQueue.erase entry ↔
      ∃ other, txid ≠ other ∧ pool.transactions[other]? = some queued := by
  rw [KeyedSet.mem_erase, indexed.queued]
  constructor
  · intro stays
    obtain ⟨⟨other, stored⟩, different⟩ := stays
    refine ⟨other, ?_, stored⟩
    intro same
    subst other
    rw [found] at stored
    cases stored
    exact different rfl
  · intro stays
    obtain ⟨other, different, stored⟩ := stays
    refine ⟨⟨other, stored⟩, ?_⟩
    intro same
    exact different (indexed.apart _ _ _ _ found stored same)

/-- An untied entry joins a queue of the other transactions' entries. -/
theorem Untied.mem_insert {pool : Mempool} {txid : Hash} {entry : MempoolEntry}
    (untied : pool.Untied txid entry) {queue : KeyedSet MempoolEntry.priority}
    (others : ∀ queued, queued ∈ queue ↔
      ∃ other, txid ≠ other ∧ pool.transactions[other]? = some queued) (queued : MempoolEntry) :
    queued ∈ queue.insert entry ↔
      ∃ other : Hash, (pool.transactions.insert txid entry)[other]? = some queued := by
  have free : ∀ other ∈ queue, other.priority ≠ entry.priority := by
    intro other member
    obtain ⟨otherID, different, stored⟩ := (others other).mp member
    exact untied otherID other stored different.symm
  rw [KeyedSet.mem_insert_of_free free, others]
  simp only [getElem?_insert_eq]
  constructor
  · intro either
    cases either with
    | inl isEntry =>
        subst queued
        exact ⟨txid, if_pos rfl⟩
    | inr stays =>
        obtain ⟨other, different, stored⟩ := stays
        exact ⟨other, by rw [if_neg different, stored]⟩
  · intro stored
    obtain ⟨other, stored⟩ := stored
    by_cases same : txid = other
    · rw [if_pos same] at stored
      exact .inl (Option.some.inj stored).symm
    · rw [if_neg same] at stored
      exact .inr ⟨other, same, stored⟩

/-- An untied entry keeps the priorities apart. -/
theorem Indexed.apart_insert {pool : Mempool} (indexed : pool.Indexed) {txid : Hash}
    {entry : MempoolEntry} (untied : pool.Untied txid entry) {first second : Hash}
    {firstEntry secondEntry : MempoolEntry}
    (firstFound : (pool.transactions.insert txid entry)[first]? = some firstEntry)
    (secondFound : (pool.transactions.insert txid entry)[second]? = some secondEntry)
    (samePriority : firstEntry.priority = secondEntry.priority) : first = second := by
  rw [getElem?_insert_eq] at firstFound secondFound
  split at firstFound
  · rename_i isFirst
    cases firstFound
    split at secondFound
    · rename_i isSecond
      exact isFirst.symm.trans isSecond
    · rename_i different
      exact absurd samePriority.symm (untied _ _ secondFound (Ne.symm different))
  · rename_i different
    split at secondFound
    · cases secondFound
      exact absurd samePriority (untied _ _ firstFound (Ne.symm different))
    · exact indexed.apart _ _ _ _ firstFound secondFound samePriority

theorem Indexed.named_insert {pool : Mempool} (indexed : pool.Indexed) {txid : Hash}
    {entry : MempoolEntry} (named : entry.tx.cachedTxID = some txid) {other : Hash}
    {otherEntry : MempoolEntry}
    (stored : (pool.transactions.insert txid entry)[other]? = some otherEntry) :
    otherEntry.tx.cachedTxID = some other :=
  forall_insert indexed.named named other otherEntry stored

theorem removeTransaction_indexed {pool : Mempool} (indexed : pool.Indexed) (txid : Hash) :
    (pool.removeTransaction txid).2.Indexed := by
  cases found : pool.transactions[txid]? with
  | none =>
      rw [removeTransaction_missing found]
      exact indexed
  | some removed =>
      obtain ⟨_, transactions, priorityQueue, spentOutpoints, totalSize⟩ :=
        removeTransaction_found found
      have kept (other : Hash) (entry : MempoolEntry) :
          (pool.transactions.erase txid)[other]? = some entry ↔
            txid ≠ other ∧ pool.transactions[other]? = some entry := by
        rw [getElem?_erase_eq]
        by_cases same : txid = other
        · simp [same]
        · simp [same]
      constructor
      · intro entry
        rw [priorityQueue, transactions, indexed.mem_erase found]
        simp only [kept]
      · intro first second entry otherEntry
        rw [transactions, kept, kept]
        intro firstFound secondFound
        exact indexed.apart first second entry otherEntry firstFound.2 secondFound.2
      · intro outpoint other
        rw [spentOutpoints, transactions, getElem?_foldl_erase]
        simp only [kept]
        by_cases spends : outpoint ∈ removed.tx.prevouts
        · rw [if_pos spends]
          constructor
          · intro impossible
            cases impossible
          · intro spentElsewhere
            obtain ⟨entry, ⟨different, stored⟩, alsoSpends⟩ := spentElsewhere
            have here := (indexed.spent outpoint txid).mpr ⟨removed, found, spends⟩
            have there := (indexed.spent outpoint other).mpr ⟨entry, stored, alsoSpends⟩
            rw [here] at there
            exact absurd (Option.some.inj there) different
        · rw [if_neg spends, indexed.spent]
          constructor
          · intro spent
            obtain ⟨entry, stored, entrySpends⟩ := spent
            refine ⟨entry, ⟨?_, stored⟩, entrySpends⟩
            intro same
            subst other
            rw [found] at stored
            cases stored
            exact spends entrySpends
          · intro spent
            obtain ⟨entry, ⟨_, stored⟩, entrySpends⟩ := spent
            exact ⟨entry, stored, entrySpends⟩
      · rw [totalSize, transactions, indexed.sized, total_of_found _ found, Nat.add_sub_cancel_left]
      · intro other entry
        rw [transactions, kept]
        intro stored
        exact indexed.named other entry stored.2

theorem removeTransactions_indexed {pool : Mempool} (indexed : pool.Indexed) (txids : List Hash) :
    (pool.removeTransactions txids).Indexed :=
  removeTransactions_induction (motive := Indexed)
    (fun _ txid reached => removeTransaction_indexed reached txid) indexed txids

theorem refresh_indexed {pool : Mempool} (indexed : pool.Indexed) {txid : Hash}
    {entry refreshed : MempoolEntry} (found : pool.transactions[txid]? = some entry)
    (sameTx : refreshed.tx = entry.tx) (sameSize : refreshed.size = entry.size)
    (untied : pool.Untied txid refreshed) : (pool.refresh txid entry refreshed).Indexed := by
  constructor
  · exact untied.mem_insert (indexed.mem_erase found)
  · intro first second firstEntry secondEntry
    exact indexed.apart_insert untied
  · intro outpoint other
    have stored := refresh_sameTransactions found sameTx other
    refine (indexed.spent outpoint other).trans ?_
    constructor
    · intro spent
      obtain ⟨entry, isEntry, spends⟩ := spent
      rw [isEntry, Option.map_some] at stored
      obtain ⟨after, isAfter, sameTx⟩ := Option.map_eq_some_iff.mp stored
      exact ⟨after, isAfter, sameTx ▸ spends⟩
    · intro spent
      obtain ⟨after, isAfter, spends⟩ := spent
      rw [isAfter, Option.map_some] at stored
      obtain ⟨entry, isEntry, sameTx⟩ := Option.map_eq_some_iff.mp stored.symm
      exact ⟨entry, isEntry, sameTx ▸ spends⟩
  · rw [refresh, total_insert, sameSize, indexed.sized]
    exact total_of_found _ found
  · intro other otherEntry
    exact indexed.named_insert (sameTx ▸ indexed.named txid entry found)

theorem updateAncestorState_indexed {fuel : Nat} {pool after : Mempool} {txid : Hash}
    (indexed : pool.Indexed) (untied : UpdateUntied fuel pool txid)
    (done : updateAncestorState fuel pool txid = some after) : after.Indexed := by
  induction fuel generalizing pool after txid with
  | zero => cases done
  | succ fuel ih =>
      rw [updateAncestorState] at done
      cases found : pool.transactions[txid]? with
      | none =>
          rw [found] at done
          cases done
          exact indexed
      | some entry =>
          rw [found] at done
          obtain ⟨own, descendants⟩ := untied entry found
          obtain ⟨sameTx, sameSize⟩ := withAncestors_keeps pool txid entry
          have refreshed := refresh_indexed indexed found sameTx sameSize own
          exact descendants.invariant (fun _ _ _ kept holds taken => ih kept holds taken) refreshed done

theorem insertEntry_indexed {pool : Mempool} (indexed : pool.Indexed) {txid : Hash}
    {entry : MempoolEntry} (absent : pool.transactions[txid]? = none)
    (untied : pool.Untied txid entry) (named : entry.tx.cachedTxID = some txid)
    (unspent : ∀ outpoint ∈ entry.tx.prevouts, pool.spentOutpoints[outpoint]? = none) :
    (pool.insertEntry txid entry).Indexed := by
  obtain ⟨transactions, priorityQueue, spentOutpoints, totalSize⟩ := updateRelationships_keeps
    { pool with
      transactions := pool.transactions.insert txid entry
      priorityQueue := pool.priorityQueue.insert entry
      totalSize := pool.totalSize + entry.size
      spentOutpoints := entry.tx.prevouts.foldl (fun spent outpoint => spent.insert outpoint txid)
        pool.spentOutpoints } txid
  refine Indexed.congr ?_ (pool.insertEntry txid entry) transactions priorityQueue spentOutpoints
    totalSize
  constructor
  · have others (queued : MempoolEntry) : queued ∈ pool.priorityQueue ↔
        ∃ other, txid ≠ other ∧ pool.transactions[other]? = some queued := by
      rw [indexed.queued]
      exact exists_congr fun other => (and_iff_right_of_imp (ne_of_absent absent)).symm
    exact untied.mem_insert others
  · intro first second firstEntry secondEntry
    exact indexed.apart_insert untied
  · intro outpoint other
    simp only [getElem?_foldl_insert, getElem?_insert_eq]
    by_cases spends : outpoint ∈ entry.tx.prevouts
    · rw [if_pos spends]
      constructor
      · intro isTxid
        cases isTxid
        exact ⟨entry, if_pos rfl, spends⟩
      · intro spent
        obtain ⟨otherEntry, stored, otherSpends⟩ := spent
        split at stored
        · rename_i same
          rw [same]
        · have taken := (indexed.spent outpoint other).mpr ⟨otherEntry, stored, otherSpends⟩
          rw [unspent outpoint spends] at taken
          cases taken
    · rw [if_neg spends, indexed.spent]
      constructor
      · intro spent
        obtain ⟨otherEntry, stored, otherSpends⟩ := spent
        exact ⟨otherEntry, by rw [if_neg (ne_of_absent absent stored), stored], otherSpends⟩
      · intro spent
        obtain ⟨otherEntry, stored, otherSpends⟩ := spent
        split at stored
        · cases stored
          exact absurd otherSpends spends
        · exact ⟨otherEntry, stored, otherSpends⟩
  · rw [total_insert, erase_of_missing absent, indexed.sized, Nat.add_comm]
  · intro other otherEntry
    exact indexed.named_insert named

theorem unspent_of_shrinks {pool after : Mempool} (indexed : pool.Indexed) (afterIndexed : after.Indexed)
    (shrinks : pool.Shrinks after) {outpoint : OutPoint}
    (unspent : pool.spentOutpoints[outpoint]? = none) : after.spentOutpoints[outpoint]? = none := by
  cases spent : after.spentOutpoints[outpoint]? with
  | none => rfl
  | some txid =>
      obtain ⟨entry, stored, spends⟩ := (afterIndexed.spent outpoint txid).mp spent
      have before := (indexed.spent outpoint txid).mpr ⟨entry, shrinks txid entry stored, spends⟩
      rw [unspent] at before
      cases before

theorem makeRoom_indexed {pool after : Mempool} {size : Nat} (indexed : pool.Indexed)
    (done : pool.makeRoom size = some after) : after.Indexed :=
  makeRoom_induction (motive := Indexed) (fun _ txid reached => removeTransaction_indexed reached txid)
    indexed done

/-- What a call has come to before it stores an entry. -/
structure Prepared (pool : Mempool) (tx : CachedTransaction) (ready : Mempool)
    (pending : Option (Hash × MempoolEntry)) : Prop where
  indexed : ready.Indexed
  shrinks : pool.Shrinks ready
  entry : ∀ txid entry, pending = some (txid, entry) →
    entry.tx.cachedTxID = some txid ∧ entry.tx.toTransaction = tx.toTransaction ∧
      ∀ outpoint ∈ entry.tx.prevouts, ready.spentOutpoints[outpoint]? = none

theorem Prepared.rejected {pool ready : Mempool} (indexed : ready.Indexed)
    (shrinks : pool.Shrinks ready) (tx : CachedTransaction) : Prepared pool tx ready none where
  indexed := indexed
  shrinks := shrinks
  entry := by
    intro txid entry pending
    cases pending

/-- An entry made of the transaction is ready where no outpoint of it is spent. -/
theorem Prepared.accepted {pool ready : Mempool} {tx : CachedTransaction} (indexed : ready.Indexed)
    (shrinks : pool.Shrinks ready) (fee : UInt64) (time height : UInt32) (signalsRbf : Bool)
    (unspent : ∀ outpoint ∈ tx.prevouts, ready.spentOutpoints[outpoint]? = none) :
    Prepared pool tx ready
      (some (tx.getTxID.1, .create tx.getTxID.2 fee time height signalsRbf)) where
  indexed := indexed
  shrinks := shrinks
  entry := by
    intro txid entry pending
    cases pending
    have sameTx : tx.getTxID.2.getSerializedSize.2.toTransaction = tx.toTransaction := by
      rw [CachedTransaction.getSerializedSize_toTransaction, CachedTransaction.getTxID_toTransaction]
    rw [create_tx, CachedTransaction.getSerializedSize_cachedTxID, sameTx]
    exact ⟨CachedTransaction.getTxID_cached tx, rfl, unspent⟩

theorem mem_getConflictingTransactions {pool : Mempool} {tx : CachedTransaction} {outpoint : OutPoint}
    {txid : Hash} (spends : outpoint ∈ tx.prevouts)
    (spent : pool.spentOutpoints[outpoint]? = some txid) :
    txid ∈ pool.getConflictingTransactions tx := by
  rw [getConflictingTransactions, Std.ExtTreeSet.mem_toList, Std.ExtTreeSet.mem_ofList,
    List.contains_iff_mem]
  exact List.mem_filterMap.mpr ⟨outpoint, spends, spent⟩

theorem Replacement.prepared {pool ready : Mempool} (indexed : pool.Indexed) {tx : CachedTransaction}
    {utxoSet : UTXOSet} {height time : UInt32} {pending : Option (Hash × MempoolEntry)}
    (reached : Replacement pool tx utxoSet height time ready pending) :
    Prepared pool tx ready pending := by
  cases reached with
  | refused => exact .rejected indexed (.refl pool) tx
  | stored someConflict fee size signalled valid pays =>
      have readyIndexed := removeTransactions_indexed indexed (pool.conflicts tx)
      have shrinks := removeTransactions_shrinks pool (pool.conflicts tx)
      apply Prepared.accepted readyIndexed shrinks
      intro outpoint spends
      cases spent : (pool.removeTransactions (pool.conflicts tx)).spentOutpoints[outpoint]? with
      | none => rfl
      | some txid =>
          obtain ⟨entry, stored, entrySpends⟩ := (readyIndexed.spent outpoint txid).mp spent
          have before := (indexed.spent outpoint txid).mpr
            ⟨entry, shrinks txid entry stored, entrySpends⟩
          have sameSpends : outpoint ∈ tx.getTxID.2.prevouts := by
            rw [CachedTransaction.getTxID_toTransaction]
            exact spends
          have conflicting : txid ∈ pool.conflicts tx := mem_getConflictingTransactions sameSpends before
          rw [removeTransactions_lookup, if_pos conflicting] at stored
          cases stored

theorem unspent_of_noConflict {pool : Mempool} {tx : CachedTransaction}
    (noConflict : pool.hasConflict tx.getTxID.2 = false) :
    ∀ outpoint ∈ tx.prevouts, pool.spentOutpoints[outpoint]? = none := by
  intro outpoint spends
  rw [hasConflict, List.any_eq_false, CachedTransaction.getTxID_toTransaction] at noConflict
  exact Option.not_isSome_iff_eq_none.mp (noConflict outpoint spends)

theorem Addition.prepared {pool ready : Mempool} (indexed : pool.Indexed) {tx : CachedTransaction}
    {utxoSet : UTXOSet} {height time : UInt32} {pending : Option (Hash × MempoolEntry)}
    (reached : Addition pool tx utxoSet height time ready pending) :
    Prepared pool tx ready pending := by
  cases reached with
  | refused => exact .rejected indexed (.refl pool) tx
  | replaced absent conflict reached => exact reached.prepared indexed
  | full absent fee size valid noConflict evicted tight =>
      exact .rejected (makeRoom_indexed indexed evicted) (makeRoom_shrinks evicted) tx
  | stored absent fee size valid noConflict evicted room =>
      have readyIndexed := makeRoom_indexed indexed evicted
      apply Prepared.accepted readyIndexed (makeRoom_shrinks evicted)
      intro outpoint spends
      exact unspent_of_shrinks indexed readyIndexed (makeRoom_shrinks evicted)
        (unspent_of_noConflict noConflict outpoint spends)

theorem storePrepared_indexed {fuel : Nat} {pool after : Mempool} {tx : CachedTransaction}
    {outcome : Option (Mempool × Option (Hash × MempoolEntry))} {result : Bool}
    (prepared : ∀ ready pending, outcome = some (ready, pending) → Prepared pool tx ready pending)
    (untied : StoresUntied outcome) (done : storePrepared fuel outcome = some (result, after)) :
    after.Indexed := by
  cases outcome with
  | none => cases done
  | some outcome =>
      obtain ⟨ready, pending⟩ := outcome
      have isPrepared := prepared ready pending rfl
      cases pending with
      | none =>
          cases done
          exact isPrepared.indexed
      | some stored =>
          obtain ⟨txid, entry⟩ := stored
          obtain ⟨absent, own, updates⟩ := untied ready txid entry rfl
          obtain ⟨named, _, unspent⟩ := isPrepared.entry txid entry rfl
          obtain ⟨updated, isUpdated, same⟩ := Option.map_eq_some_iff.mp done
          cases same
          exact updateAncestorState_indexed
            (insertEntry_indexed isPrepared.indexed absent own named unspent) (updates fuel) isUpdated

theorem step_indexed {pool after : Mempool} {call : MempoolCall} (indexed : pool.Indexed)
    (next : OrderlyStep pool call after) : after.Indexed := by
  obtain ⟨taken, orderly⟩ := next
  cases call with
  | addTransaction tx utxoSet height time =>
      obtain ⟨fuel, result, done⟩ := taken
      exact storePrepared_indexed (fun _ _ prepared => (prepareAddition_cases prepared).prepared indexed) orderly done
  | replaceTransaction tx utxoSet height time =>
      obtain ⟨fuel, result, done⟩ := taken
      exact storePrepared_indexed (fun _ _ prepared => (prepareReplacement_cases prepared).prepared indexed) orderly done
  | removeTransaction txid =>
      rw [Step] at taken
      rw [taken]
      exact removeTransaction_indexed indexed txid
  | removeConflicting confirmedTxs utxoSet height =>
      unfold Step removeConflicting at taken
      dsimp only at taken
      split at taken
      · cases taken
      · cases taken
        exact removeTransactions_indexed (removeTransactions_indexed indexed _) _
  | updateAncestorState txid =>
      obtain ⟨fuel, done⟩ := taken
      exact updateAncestorState_indexed indexed (orderly fuel) done

theorem Indexed.represents {pool : Mempool} (indexed : pool.Indexed) : pool.Represents where
  priorityQueue := by
    apply (List.perm_ext_iff_of_nodup (KeyedSet.toList_nodup _) _).mpr
    · intro entry
      rw [KeyedSet.mem_toList, indexed.queued, List.mem_map]
      constructor
      · intro stored
        obtain ⟨txid, stored⟩ := stored
        exact ⟨(txid, entry), Std.ExtTreeMap.mem_toList_iff_getElem?_eq_some.mpr stored, rfl⟩
      · intro listed
        obtain ⟨⟨txid, _⟩, member, rfl⟩ := listed
        exact ⟨txid, Std.ExtTreeMap.mem_toList_iff_getElem?_eq_some.mp member⟩
    · apply List.Nodup.map_on _ (Library.toList_nodup pool.transactions)
      intro left leftIn right rightIn same
      have leftStored := Std.ExtTreeMap.mem_toList_iff_getElem?_eq_some.mp leftIn
      have rightStored := Std.ExtTreeMap.mem_toList_iff_getElem?_eq_some.mp rightIn
      have sameID := indexed.apart _ _ _ _ leftStored rightStored (congrArg _ same)
      exact Prod.ext sameID same
  spentOutpoints := indexed.spent
  totalSize := indexed.sized

/-- A pool that represents its transactions lists each of them once. -/
theorem Represents.getTransactionsByFeeRate {pool : Mempool} (represents : pool.Represents)
    {maxCount : Nat} (all : pool.transactions.size ≤ maxCount) :
    (pool.getTransactionsByFeeRate maxCount).Perm (pool.transactions.toList.map (·.2.tx)) := by
  have listed := represents.priorityQueue.map fun entry => entry.tx
  rw [List.map_map] at listed
  have length := listed.length_eq
  simp only [List.length_map, Std.ExtTreeMap.length_toList] at length
  rw [Mempool.getTransactionsByFeeRate, List.take_of_length_le]
  · exact listed
  · rw [List.length_map]
    omega

/-- After every orderly run the indexes of the pool represent its transactions. -/
theorem orderly_run_represents {calls : List MempoolCall} {pool : Mempool}
    (run : Run OrderlyStep fresh calls pool) :
    pool.Represents ∧ ∀ maxCount, pool.transactions.size ≤ maxCount →
      (pool.getTransactionsByFeeRate maxCount).Perm (pool.transactions.toList.map (·.2.tx)) := by
  have indexed : pool.Indexed :=
    run.invariant fresh_indexed fun _ _ _ holds next => step_indexed holds next
  have represents := indexed.represents
  exact ⟨represents, fun maxCount all => represents.getTransactionsByFeeRate all⟩

/-- The pool holds the given transaction or none. -/
def Lone (pool : Mempool) (txid : Hash) : Prop :=
  ∀ (other : Hash) entry, pool.transactions[other]? = some entry → other = txid

theorem Lone.of_same {pool after : Mempool} {txid : Hash} (lone : pool.Lone txid)
    (same : sameTransactions after pool) : after.Lone txid := by
  intro other entry found
  have before := same other
  rw [found, Option.map_some] at before
  obtain ⟨stored, isStored, _⟩ := Option.map_eq_some_iff.mp before.symm
  exact lone other stored isStored

theorem Lone.updateUntied {pool : Mempool} {txid : Hash} (lone : pool.Lone txid) (fuel : Nat)
    (updated : Hash) : UpdateUntied fuel pool updated := by
  induction fuel generalizing pool updated with
  | zero => exact trivial
  | succ fuel ih =>
      intro entry found
      have own : updated = txid := lone updated entry found
      refine ⟨?_, ?_⟩
      · intro other otherEntry stored different
        exact absurd ((lone other otherEntry stored).trans own.symm) different
      · have refreshed := refresh_sameTransactions found (withAncestors_keeps pool updated entry).1
        refine EachInTurn.of_invariant (motive := fun reached => reached.Lone txid) ?_ ?_
          (lone.of_same refreshed) _
        · exact fun reached child kept => ih kept child
        · exact fun reached child next kept taken =>
            kept.of_same (updateAncestorState_sameTransactions taken)

/-- The first transaction of a pool ties with nothing. -/
theorem first_addition_orderly (tx : CachedTransaction) (utxoSet : UTXOSet) (height time : UInt32) :
    fresh.Orderly (.addTransaction tx utxoSet height time) := by
  intro pool txid entry prepared
  have nothing (other : Hash) : pool.transactions[other]? = none := by
    cases stored : pool.transactions[other]? with
    | none => rfl
    | some held =>
        have shrinks := (prepareAddition_cases prepared).proposed.shrinks
        exact absurd (shrinks other held stored) not_found_empty
  refine ⟨nothing txid, ?_, ?_⟩
  · intro other otherEntry stored
    rw [nothing] at stored
    cases stored
  · intro fuel
    apply Lone.updateUntied
    intro other held stored
    rw [insertEntry_transactions, getElem?_insert_eq] at stored
    split at stored
    · rename_i same
      exact same.symm
    · rw [nothing] at stored
      cases stored

/-! Two transactions of one fee rate that enter the pool in the same second. -/
namespace Tie

def firstOutpoint : OutPoint := ⟨zeroHash, 0⟩

def secondOutpoint : OutPoint := ⟨zeroHash, 1⟩

def coin : Coin where
  output := Sample.output 2000 ⟨[1], ByteVector.one_fits⟩
  height := 1
  isCoinbase := false

def utxoSet : UTXOSet := UTXOSet.addCoin (UTXOSet.addCoin ∅ firstOutpoint coin) secondOutpoint coin

def first : CachedTransaction :=
  .ofTransaction (Sample.spend firstOutpoint .empty [Sample.output 1000 ⟨[1], ByteVector.one_fits⟩])

def second : CachedTransaction :=
  .ofTransaction (Sample.spend secondOutpoint .empty [Sample.output 1000 ⟨[1], ByteVector.one_fits⟩])

def added : Option (Bool × Mempool) := fresh.addTransaction 1 first utxoSet 200 0

def pool : Mempool := (added.map Prod.snd).getD fresh

def addedBoth : Option (Bool × Mempool) := pool.addTransaction 1 second utxoSet 200 0

def poolOfBoth : Mempool := (addedBoth.map Prod.snd).getD fresh

/-- Both are taken and stored, and one is queued. -/
theorem outcome : added.map Prod.fst = some true ∧ addedBoth.map Prod.fst = some true ∧
    poolOfBoth.transactions.size = 2 ∧ poolOfBoth.priorityQueue.toList.length = 1 := by
  decide +kernel

theorem first_step : fresh.Step (.addTransaction first utxoSet 200 0) pool :=
  ⟨1, true, returned outcome.1 fresh⟩

theorem second_step : pool.Step (.addTransaction second utxoSet 200 0) poolOfBoth :=
  ⟨1, true, returned outcome.2.1 fresh⟩

end Tie

/-- With both in the pool the queue holds one of them. -/
theorem run_loses_tied_entry :
    Run Step fresh
      ([] ++ [.addTransaction Tie.first Tie.utxoSet 200 0] ++
        [.addTransaction Tie.second Tie.utxoSet 200 0]) Tie.poolOfBoth ∧
    ¬ Tie.poolOfBoth.Represents := by
  refine ⟨.step (.step .start Tie.first_step) Tie.second_step, ?_⟩
  intro represents
  obtain ⟨-, -, stored, queued⟩ := Tie.outcome
  have lengths := represents.priorityQueue.length_eq
  rw [List.length_map, Std.ExtTreeMap.length_toList, stored, queued] at lengths
  cases lengths

/-- With the first alone the queue holds it. -/
theorem orderly_run_represents_first :
    Tie.pool.Represents ∧ ∀ maxCount, Tie.pool.transactions.size ≤ maxCount →
      (Tie.pool.getTransactionsByFeeRate maxCount).Perm
        (Tie.pool.transactions.toList.map (·.2.tx)) :=
  orderly_run_represents
    (.step .start ⟨Tie.first_step, first_addition_orderly Tie.first Tie.utxoSet 200 0⟩)

end Mempool

end Parthenon
