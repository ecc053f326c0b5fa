import Parthenon.Mempool.Contents

namespace Parthenon

open Library Crypto Primitives Chainstate

/-! # Eviction

The eviction loop takes the transaction of the last queued entry out of the pool
and does not look at whether there was one, so it ends only where the queue leads
to the map.
-/

namespace Mempool

/-- Every queued entry leads to an entry of the map with its priority. -/
def Live (pool : Mempool) : Prop :=
  ∀ queued ∈ pool.priorityQueue, ∃ entry,
    pool.transactions[queued.tx.getTxID.1]? = some entry ∧ entry.priority = queued.priority

/-- What the map takes for the queued entries of a kind. -/
def evictable (pool : Mempool) (among : MempoolEntry → Bool) : Nat :=
  ((pool.priorityQueue.toList.filter among).map fun queued =>
    (pool.transactions[queued.tx.getTxID.1]?.map (·.size)).getD 0).sum

theorem removeTransaction_maxSize (pool : Mempool) (txid : Hash) :
    (pool.removeTransaction txid).2.maxSize = pool.maxSize := by
  rw [removeTransaction]
  cases found : pool.transactions[txid]? with
  | none => rfl
  | some entry =>
      dsimp only
      exact (removeFromRelationships_keeps _ txid).2.2.2.2

/-! ## One turn of the loop -/

theorem Live.of_erased {pool next : Mempool} (live : pool.Live) {txid : Hash} {entry : MempoolEntry}
    (found : pool.transactions[txid]? = some entry)
    (transactions : next.transactions = pool.transactions.erase txid)
    (priorityQueue : next.priorityQueue = pool.priorityQueue.erase entry) : next.Live := by
  intro queued member
  rw [priorityQueue, KeyedSet.mem_erase] at member
  obtain ⟨stays, different⟩ := member
  obtain ⟨held, isHeld, same⟩ := live queued stays
  refine ⟨held, ?_, same⟩
  have apart : txid ≠ queued.tx.getTxID.1 := by
    intro sameID
    rw [← sameID, found] at isHeld
    cases isHeld
    exact different same
  rw [transactions, getElem?_erase_eq, if_neg apart, isHeld]

theorem Live.removeTransaction {pool : Mempool} (live : pool.Live) (txid : Hash) :
    (pool.removeTransaction txid).2.Live := by
  cases found : pool.transactions[txid]? with
  | none => rwa [removeTransaction_missing found]
  | some entry =>
      obtain ⟨_, transactions, priorityQueue, _, _⟩ := removeTransaction_found found
      exact live.of_erased found transactions priorityQueue

theorem Live.priority {pool : Mempool} (live : pool.Live) {queued entry : MempoolEntry}
    (member : queued ∈ pool.priorityQueue)
    (found : pool.transactions[queued.tx.getTxID.1]? = some entry) :
    entry.priority = queued.priority := by
  obtain ⟨held, isHeld, same⟩ := live queued member
  rw [found] at isHeld
  cases isHeld
  exact same

/-- Whether the queue leads to the map is decided entry by entry, from the last one on. -/
theorem live_iff {pool : Mempool} {queued entry : MempoolEntry} (member : queued ∈ pool.priorityQueue)
    (found : pool.transactions[queued.tx.getTxID.1]? = some entry) :
    pool.Live ↔ (pool.removeTransaction queued.tx.getTxID.1).2.Live := by
  obtain ⟨_, transactions, priorityQueue, _, _⟩ := removeTransaction_found found
  have stays {other : MempoolEntry} (otherMember : other ∈ pool.priorityQueue)
      (different : entry.priority ≠ other.priority) :
      other ∈ (pool.removeTransaction queued.tx.getTxID.1).2.priorityQueue := by
    rw [priorityQueue, KeyedSet.mem_erase]
    exact ⟨otherMember, different⟩
  constructor
  · intro live
    exact live.removeTransaction _
  · intro live other otherMember
    -- An entry that stayed in the queue although its transaction is gone leads nowhere.
    have same : entry.priority = queued.priority := by
      by_contra different
      obtain ⟨held, isHeld, _⟩ := live queued (stays member different)
      rw [transactions, getElem?_erase_eq, if_pos rfl] at isHeld
      cases isHeld
    by_cases sameKey : entry.priority = other.priority
    · obtain rfl := KeyedSet.eq_of_key_eq member otherMember (same.symm.trans sameKey)
      exact ⟨entry, found, same⟩
    · obtain ⟨held, isHeld, samePriority⟩ := live other (stays otherMember sameKey)
      rw [transactions, getElem?_erase_eq] at isHeld
      split at isHeld
      · cases isHeld
      · exact ⟨held, isHeld, samePriority⟩

theorem evictable_removeTransaction {pool : Mempool} (live : pool.Live) {queued entry : MempoolEntry}
    (member : queued ∈ pool.priorityQueue)
    (found : pool.transactions[queued.tx.getTxID.1]? = some entry) (among : MempoolEntry → Bool) :
    pool.evictable among = (if among queued then entry.size else 0) +
      (pool.removeTransaction queued.tx.getTxID.1).2.evictable among := by
  obtain ⟨_, transactions, priorityQueue, _, _⟩ := removeTransaction_found found
  have same := live.priority member found
  have rest : ((pool.priorityQueue.erase queued).toList.filter among).map (fun other =>
        (pool.transactions[other.tx.getTxID.1]?.map (·.size)).getD 0) =
      ((pool.priorityQueue.erase queued).toList.filter among).map fun other =>
        ((pool.transactions.erase queued.tx.getTxID.1)[other.tx.getTxID.1]?.map (·.size)).getD 0 := by
    apply List.map_congr_left
    intro other listed
    have otherMember := KeyedSet.mem_toList.mp (List.mem_filter.mp listed).1
    obtain ⟨stays, different⟩ := (KeyedSet.mem_erase _ _ _).mp otherMember
    have apart : queued.tx.getTxID.1 ≠ other.tx.getTxID.1 := by
      intro sameID
      obtain ⟨held, isHeld, heldPriority⟩ := live other stays
      rw [← sameID, found] at isHeld
      cases isHeld
      exact different (same.symm.trans heldPriority)
    rw [getElem?_erase_eq, if_neg apart]
  rw [evictable, evictable, transactions, priorityQueue, KeyedSet.erase_of_key_eq _ same, ← rest,
    (((KeyedSet.toList_perm_erase member).filter among).map _).sum_eq, List.filter_cons]
  split
  · rw [List.map_cons, List.sum_cons, found]
    rfl
  · rw [Nat.zero_add]

/-! ## The loop -/

/-- The loop ends without having made room exactly when every queued entry leads to
the map and all of them together are not enough. -/
theorem evictFrom_inVain_iff {required rounds : Nat} {pool : Mempool}
    (enough : pool.transactions.size < rounds) :
    (∃ after, evictFrom required rounds pool = some after ∧
        after.totalSize + required > pool.maxSize) ↔
      pool.Live ∧ pool.totalSize - pool.evictable (fun _ => true) + required > pool.maxSize := by
  induction rounds generalizing pool with
  | zero => cases enough
  | succ rounds ih =>
      by_cases full : pool.totalSize + required > pool.maxSize
      · cases last : pool.priorityQueue.last? with
        | none =>
            have nothing : pool.priorityQueue.toList = [] := List.getLast?_eq_none_iff.mp last
            rw [evictFrom_empty last, evictable, nothing]
            constructor
            · intro _
              exact ⟨fun queued member => absurd member (KeyedSet.last?_eq_none last queued), full⟩
            · intro _
              exact ⟨pool, rfl, full⟩
        | some queued =>
            have member := KeyedSet.last?_mem last
            cases found : pool.transactions[queued.tx.getTxID.1]? with
            | none =>
                rw [evictFrom_missing full last found]
                constructor
                · intro returns
                  obtain ⟨_, impossible, _⟩ := returns
                  cases impossible
                · intro inVain
                  obtain ⟨held, isHeld, _⟩ := inVain.1 queued member
                  rw [found] at isHeld
                  cases isHeld
            | some entry =>
                have smaller := removeTransaction_size found
                obtain ⟨_, _, _, _, totalSize⟩ := removeTransaction_found found
                have next := ih (Nat.lt_of_lt_of_le smaller (Nat.le_of_lt_succ enough))
                rw [removeTransaction_maxSize, totalSize, ← live_iff member found] at next
                rw [evictFrom_turn full last found, next]
                apply and_congr_right
                intro live
                rw [evictable_removeTransaction live member found, if_pos rfl]
                omega
      · rw [evictFrom_enough (Nat.not_lt.mp full)]
        constructor
        · intro returns
          obtain ⟨after, isPool, tight⟩ := returns
          cases isPool
          exact absurd tight full
        · intro inVain
          have tight := inVain.2
          omega

end Mempool

end Parthenon
