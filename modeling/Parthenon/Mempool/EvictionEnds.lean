import Parthenon.Mempool.Representation
import Parthenon.Mempool.Eviction

namespace Parthenon

open Library Crypto Primitives Chainstate

/-! # Steps of the pool

A call removes transactions, then may store one, and then may update what entries
count, so what each of these keeps every call keeps.
-/

/-- The public calls that change a pool. -/
inductive PoolCall
  | call (call : MempoolCall)
  | setMaxSize (size : Nat)
  | clear

namespace Mempool

def PoolStep (pool : Mempool) (call : PoolCall) (after : Mempool) : Prop :=
  match call with
  | .call call => pool.Step call after
  | .setMaxSize size => after = pool.setMaxSize size
  | .clear => after = pool.clear

/-- What a call that may store an entry has come to before it does. -/
def Prepares (pool : Mempool) (call : PoolCall) (ready : Mempool)
    (pending : Option (Hash × MempoolEntry)) : Prop :=
  match call with
  | .call (.addTransaction tx utxoSet height time) =>
      pool.prepareAddition tx utxoSet height time = some (ready, pending)
  | .call (.replaceTransaction tx utxoSet height time) =>
      pool.prepareReplacement tx utxoSet height time = some (ready, pending)
  | _ => False

section Induction

variable {motive : Mempool → Prop} {pool : Mempool}
  (removed : ∀ reached txid, motive reached → motive (reached.removeTransaction txid).2)
  (initially : motive pool)
include removed initially

theorem Replacement.induction {ready : Mempool} {tx : CachedTransaction} {utxoSet : UTXOSet}
    {height time : UInt32} {pending : Option (Hash × MempoolEntry)}
    (reached : Replacement pool tx utxoSet height time ready pending) : motive ready := by
  cases reached with
  | refused => exact initially
  | stored => exact removeTransactions_induction removed initially _

theorem Addition.induction {ready : Mempool} {tx : CachedTransaction} {utxoSet : UTXOSet}
    {height time : UInt32} {pending : Option (Hash × MempoolEntry)}
    (reached : Addition pool tx utxoSet height time ready pending) : motive ready := by
  cases reached with
  | refused => exact initially
  | replaced absent conflict reached => exact reached.induction removed initially
  | full absent fee size valid noConflict evicted tight =>
      exact makeRoom_induction removed initially evicted
  | stored absent fee size valid noConflict evicted room =>
      exact makeRoom_induction removed initially evicted

theorem Prepares.induction {call : PoolCall} {ready : Mempool}
    {pending : Option (Hash × MempoolEntry)} (prepares : pool.Prepares call ready pending) :
    motive ready := by
  unfold Prepares at prepares
  split at prepares
  · exact (prepareAddition_cases prepares).induction removed initially
  · exact (prepareReplacement_cases prepares).induction removed initially
  · cases prepares

/-- What every removal, every stored entry and every update keeps, each call keeps. -/
theorem step_induction {call : PoolCall} {after : Mempool}
    (stored : ∀ ready txid entry, pool.Prepares call ready (some (txid, entry)) → motive ready →
      motive (ready.insertEntry txid entry))
    (updated : ∀ fuel reached txid next, motive reached →
      updateAncestorState fuel reached txid = some next → motive next)
    (bounded : ∀ size, motive (pool.setMaxSize size)) (cleared : motive pool.clear)
    (next : pool.PoolStep call after) : motive after := by
  have finished {fuel : Nat} {outcome : Option (Mempool × Option (Hash × MempoolEntry))}
      {result : Bool} (prepared : ∀ ready pending, outcome = some (ready, pending) →
        pool.Prepares call ready pending)
      (done : storePrepared fuel outcome = some (result, after)) : motive after := by
    cases result with
    | false => exact (prepared after none (storePrepared_false.mp done)).induction removed initially
    | true =>
        obtain ⟨ready, txid, entry, isReady, done⟩ := storePrepared_true done
        have prepares := prepared ready _ isReady
        exact updated fuel _ txid after
          (stored ready txid entry prepares (prepares.induction removed initially)) done
  cases call with
  | setMaxSize size =>
      rw [PoolStep] at next
      rw [next]
      exact bounded size
  | clear =>
      rw [PoolStep] at next
      rw [next]
      exact cleared
  | call call =>
      cases call with
      | addTransaction tx utxoSet height time =>
          obtain ⟨fuel, result, done⟩ := next
          exact finished (fun _ _ prepared => prepared) done
      | replaceTransaction tx utxoSet height time =>
          obtain ⟨fuel, result, done⟩ := next
          exact finished (fun _ _ prepared => prepared) done
      | removeTransaction txid =>
          rw [PoolStep, Step] at next
          rw [next]
          exact removed pool txid initially
      | removeConflicting confirmedTxs utxoSet height =>
          unfold PoolStep Step removeConflicting at next
          dsimp only at next
          split at next
          · cases next
          · cases next
            exact removeTransactions_induction removed
              (removeTransactions_induction removed initially _) _
      | updateAncestorState txid =>
          obtain ⟨fuel, done⟩ := next
          exact updated fuel pool txid after initially done

end Induction

end Mempool

/-! ## Eviction ends

An entry leaves the queue together with the entry of the map it leads to.  The one
call that can put another entry under an identifier that is queued is a
replacement, which does not look at whether its identifier is taken.
-/

namespace Mempool

/-- The condition of the eviction loop. -/
def MustEvict (required : Nat) (pool : Mempool) : Prop :=
  pool.totalSize + required > pool.maxSize ∧ pool.priorityQueue.toList ≠ []

/-- The body of the eviction loop. -/
def evictLast (pool : Mempool) : Mempool :=
  match pool.priorityQueue.last? with
  | none => pool
  | some queued => (pool.removeTransaction queued.tx.getTxID.1).2

/-- The loop ends, and every turn takes an entry out of the queue. -/
inductive EvictionEnds (required : Nat) : Mempool → Prop
  | enough (done : ¬ MustEvict required pool) : EvictionEnds required pool
  | turn (more : MustEvict required pool)
      (fewer : pool.evictLast.priorityQueue.toList.length < pool.priorityQueue.toList.length)
      (rest : EvictionEnds required pool.evictLast) : EvictionEnds required pool

/-- No replacement is accepted under an identifier of the pool, unless it replaces
the transaction with that identifier. -/
def StoresNewID (pool : Mempool) : PoolCall → Prop
  | .call (.replaceTransaction tx utxoSet height time) =>
      (∃ ready stored, pool.prepareReplacement tx utxoSet height time = some (ready, some stored)) →
        pool.transactions[tx.getTxID.1]? = none ∨ tx.getTxID.1 ∈ pool.conflicts tx
  | _ => True

def FreshIDStep (pool : Mempool) (call : PoolCall) (after : Mempool) : Prop :=
  pool.PoolStep call after ∧ pool.StoresNewID call

/-- Every queued entry leads to the map, and every transaction is under its identifier. -/
structure Linked (pool : Mempool) : Prop where
  live : pool.Live
  named : ∀ (txid : Hash) entry, pool.transactions[txid]? = some entry →
    entry.tx.cachedTxID = some txid

theorem Linked.of_empty {pool : Mempool} (transactions : pool.transactions = ∅)
    (priorityQueue : pool.priorityQueue = .empty) : pool.Linked where
  live := by
    intro queued member
    rw [priorityQueue] at member
    exact absurd member (KeyedSet.not_mem_empty queued)
  named := by
    intro txid entry found
    rw [transactions] at found
    exact absurd found not_found_empty

/-- The bound, the relations and the spent outpoints do not matter. -/
theorem Linked.congr {pool other : Mempool} (linked : pool.Linked)
    (transactions : other.transactions = pool.transactions)
    (priorityQueue : other.priorityQueue = pool.priorityQueue) : other.Linked where
  live := by
    unfold Live
    rw [transactions, priorityQueue]
    exact linked.live
  named := by
    rw [transactions]
    exact linked.named

theorem Linked.removeTransaction {pool : Mempool} (linked : pool.Linked) (txid : Hash) :
    (pool.removeTransaction txid).2.Linked where
  live := linked.live.removeTransaction txid
  named other entry found := linked.named other entry (removeTransaction_shrinks pool txid other entry found)

/-- An entry stored under an identifier that is not taken. -/
theorem Linked.insertEntry {pool : Mempool} (linked : pool.Linked) {txid : Hash}
    {entry : MempoolEntry} (absent : pool.transactions[txid]? = none)
    (named : entry.tx.cachedTxID = some txid) : (pool.insertEntry txid entry).Linked := by
  obtain ⟨transactions, priorityQueue, _, _⟩ := updateRelationships_keeps
    { pool with
      transactions := pool.transactions.insert txid entry
      priorityQueue := pool.priorityQueue.insert entry
      totalSize := pool.totalSize + entry.size
      spentOutpoints := entry.tx.prevouts.foldl (fun spent outpoint => spent.insert outpoint txid)
        pool.spentOutpoints } txid
  constructor
  · intro queued member
    rw [show (pool.insertEntry txid entry).priorityQueue = pool.priorityQueue.insert entry from
      priorityQueue] at member
    rw [insertEntry_transactions]
    cases KeyedSet.mem_of_mem_insert member with
    | inl isEntry =>
        subst isEntry
        rw [CachedTransaction.getTxID_of_cached named, getElem?_insert_eq, if_pos rfl]
        exact ⟨queued, rfl, rfl⟩
    | inr stays =>
        obtain ⟨held, isHeld, same⟩ := linked.live queued stays
        refine ⟨held, ?_, same⟩
        rw [getElem?_insert_eq, if_neg (ne_of_absent absent isHeld), isHeld]
  · rw [insertEntry_transactions]
    exact forall_insert linked.named named

theorem Linked.refresh {pool : Mempool} (linked : pool.Linked) {txid : Hash}
    {entry refreshed : MempoolEntry} (found : pool.transactions[txid]? = some entry)
    (sameTx : refreshed.tx = entry.tx) : (pool.refresh txid entry refreshed).Linked := by
  have named : refreshed.tx.cachedTxID = some txid := sameTx ▸ linked.named txid entry found
  constructor
  · intro queued member
    cases KeyedSet.mem_of_mem_insert member with
    | inl isRefreshed =>
        subst isRefreshed
        rw [CachedTransaction.getTxID_of_cached named, Mempool.refresh, getElem?_insert_eq, if_pos rfl]
        exact ⟨queued, rfl, rfl⟩
    | inr stays =>
        obtain ⟨before, different⟩ := (KeyedSet.mem_erase _ _ _).mp stays
        obtain ⟨held, isHeld, same⟩ := linked.live queued before
        refine ⟨held, ?_, same⟩
        rw [Mempool.refresh, getElem?_insert_eq, if_neg, isHeld]
        intro sameID
        rw [← sameID, found] at isHeld
        cases isHeld
        exact different same
  · exact forall_insert linked.named named

theorem Linked.updateAncestorState {fuel : Nat} {pool after : Mempool} {txid : Hash}
    (linked : pool.Linked) (done : updateAncestorState fuel pool txid = some after) :
    after.Linked := by
  refine updateAncestorState_induction ?_ linked done
  intro reached child entry found stillLinked
  exact stillLinked.refresh found (withAncestors_keeps reached child entry).1

theorem absent_of_shrinks {pool after : Mempool} (shrinks : pool.Shrinks after) {txid : Hash}
    (absent : pool.transactions[txid]? = none) : after.transactions[txid]? = none := by
  cases found : after.transactions[txid]? with
  | none => rfl
  | some entry =>
      rw [shrinks txid entry found] at absent
      cases absent

theorem Replacement.absent {pool ready : Mempool} {tx : CachedTransaction} {utxoSet : UTXOSet}
    {height time : UInt32} {txid : Hash} {entry : MempoolEntry}
    (reached : Replacement pool tx utxoSet height time ready (some (txid, entry)))
    (freshID : pool.transactions[tx.getTxID.1]? = none ∨ tx.getTxID.1 ∈ pool.conflicts tx) :
    ready.transactions[txid]? = none := by
  cases reached with
  | stored someConflict fee size signalled valid pays =>
      rw [removeTransactions_lookup]
      cases freshID with
      | inl absent => rw [absent, ite_self]
      | inr replaced => rw [if_pos replaced]

theorem Addition.absent {pool ready : Mempool} {tx : CachedTransaction} {utxoSet : UTXOSet}
    {height time : UInt32} {txid : Hash} {entry : MempoolEntry}
    (reached : Addition pool tx utxoSet height time ready (some (txid, entry))) :
    ready.transactions[txid]? = none := by
  cases reached with
  | replaced absent conflict reached => exact reached.absent (.inl absent)
  | stored absent fee size valid noConflict evicted room =>
      exact absent_of_shrinks (makeRoom_shrinks evicted) absent

/-- What is stored has a new identifier, the one it has cached. -/
theorem Prepares.entry {pool ready : Mempool} {call : PoolCall} {txid : Hash} {entry : MempoolEntry}
    (prepares : pool.Prepares call ready (some (txid, entry))) (freshID : pool.StoresNewID call) :
    ready.transactions[txid]? = none ∧ entry.tx.cachedTxID = some txid := by
  unfold Prepares at prepares
  split at prepares
  · have reached := prepareAddition_cases prepares
    exact ⟨reached.absent, (reached.proposed.entry txid entry rfl).1⟩
  · have reached := prepareReplacement_cases prepares
    exact ⟨reached.absent (freshID ⟨ready, _, prepares⟩), (reached.proposed.entry txid entry rfl).1⟩
  · cases prepares

theorem step_linked {pool after : Mempool} {call : PoolCall} (linked : pool.Linked)
    (next : FreshIDStep pool call after) : after.Linked := by
  obtain ⟨taken, freshID⟩ := next
  refine step_induction (fun _ txid reached => reached.removeTransaction txid) linked ?_
    (fun _ _ _ _ reached done => reached.updateAncestorState done) (fun _ => linked.congr rfl rfl)
    (.of_empty rfl rfl) taken
  intro ready txid entry prepares readyLinked
  obtain ⟨absent, named⟩ := prepares.entry freshID
  exact readyLinked.insertEntry absent named

/-! ### The loop ends -/

theorem Live.evictLast {pool : Mempool} (live : pool.Live) : pool.evictLast.Live := by
  rw [Mempool.evictLast]
  cases pool.priorityQueue.last? with
  | none => exact live
  | some queued => exact live.removeTransaction _

theorem Live.evictLast_fewer {pool : Mempool} (live : pool.Live)
    (nonempty : pool.priorityQueue.toList ≠ []) :
    pool.evictLast.priorityQueue.toList.length < pool.priorityQueue.toList.length := by
  obtain ⟨queued, last⟩ := Option.ne_none_iff_exists'.mp fun none =>
    nonempty (List.getLast?_eq_none_iff.mp none)
  have isLast : pool.priorityQueue.last? = some queued := last
  have member := KeyedSet.last?_mem isLast
  obtain ⟨entry, found, same⟩ := live queued member
  obtain ⟨_, _, priorityQueue, _, _⟩ := removeTransaction_found found
  have shorter := (KeyedSet.toList_perm_erase member).length_eq
  rw [Mempool.evictLast, isLast]
  dsimp only
  rw [priorityQueue, KeyedSet.erase_of_key_eq _ same]
  rw [List.length_cons] at shorter
  omega

/-- Each turn shortens the queue. -/
theorem Live.evictionEnds {pool : Mempool} (live : pool.Live) (required : Nat) :
    EvictionEnds required pool := by
  induction queue : pool.priorityQueue.toList.length using Nat.strong_induction_on generalizing pool with
  | h length ih =>
      by_cases more : MustEvict required pool
      · have fewer := live.evictLast_fewer more.2
        exact .turn more fewer (ih _ (queue ▸ fewer) live.evictLast rfl)
      · exact .enough more

theorem Live.evictFrom_returns {required rounds : Nat} {pool : Mempool} (live : pool.Live)
    (enough : pool.transactions.size < rounds) : ∃ after, evictFrom required rounds pool = some after := by
  induction rounds generalizing pool with
  | zero => cases enough
  | succ rounds ih =>
      by_cases full : pool.totalSize + required > pool.maxSize
      · cases last : pool.priorityQueue.last? with
        | none => exact ⟨pool, evictFrom_empty last⟩
        | some queued =>
            obtain ⟨entry, found, _⟩ := live queued (KeyedSet.last?_mem last)
            have smaller := removeTransaction_size found
            rw [evictFrom_turn full last found]
            exact ih (live.removeTransaction _) (Nat.lt_of_lt_of_le smaller (Nat.le_of_lt_succ enough))
      · exact ⟨pool, evictFrom_enough (Nat.not_lt.mp full)⟩

/-- A second turn that takes nothing out of the queue is the first of a loop without end. -/
theorem not_evictionEnds {required : Nat} {pool : Mempool} (more : MustEvict required pool)
    (stillMore : MustEvict required pool.evictLast)
    (noFewer : pool.evictLast.priorityQueue.toList.length ≤
      pool.evictLast.evictLast.priorityQueue.toList.length) : ¬ EvictionEnds required pool := by
  intro ends
  cases ends with
  | enough done => exact done more
  | turn _ _ rest =>
      cases rest with
      | enough done => exact done stillMore
      | turn _ fewer _ => omega

/-! A replacement whose cached identifier is that of another transaction of the pool. -/
namespace StaleID

/-- A transaction that may be replaced. -/
def original : CachedTransaction :=
  let tx := Sample.spend Tie.secondOutpoint .empty [Sample.output 1500 ⟨[1], ByteVector.one_fits⟩]
  .ofTransaction { tx with inputs := tx.inputs.map fun input => { input with sequence := 0 } }

/-- The identifier was cached before the transaction was changed. -/
def replacement : CachedTransaction :=
  { CachedTransaction.ofTransaction (Sample.spend Tie.secondOutpoint .empty
      [Sample.output 100 ⟨[1], ByteVector.one_fits⟩]) with
    cachedTxID := some Tie.first.getTxID.1 }

def added : Option (Bool × Mempool) := Tie.pool.addTransaction 1 original Tie.utxoSet 200 0

def poolOfBoth : Mempool := (added.map Prod.snd).getD fresh

def replaced : Option (Bool × Mempool) :=
  poolOfBoth.replaceTransaction 1 replacement Tie.utxoSet 200 0

def pool : Mempool := (replaced.map Prod.snd).getD fresh

def bounded : Mempool := pool.setMaxSize 0

/-- Both calls return true.  In the bounded pool the first turn takes the replacement out, the
second one nothing. -/
theorem outcome : (added.map Prod.fst = some true ∧ replaced.map Prod.fst = some true) ∧
    (bounded.totalSize + 0 > bounded.maxSize ∧
      bounded.priorityQueue.toList.length = 2 ∧
      bounded.evictLast.totalSize + 0 > bounded.evictLast.maxSize ∧
      bounded.evictLast.priorityQueue.toList.length = 1 ∧
      bounded.evictLast.evictLast.priorityQueue.toList.length = 1) ∧
    (bounded.evictTransactions 0).isNone = true := by
  decide +kernel

def calls : List PoolCall :=
  [] ++ [.call (.addTransaction Tie.first Tie.utxoSet 200 0)] ++
    [.call (.addTransaction original Tie.utxoSet 200 0)] ++
    [.call (.replaceTransaction replacement Tie.utxoSet 200 0)] ++ [.setMaxSize 0]

theorem run : Run PoolStep fresh calls bounded := by
  have first : fresh.PoolStep (.call (.addTransaction Tie.first Tie.utxoSet 200 0)) Tie.pool :=
    Tie.first_step
  have second : Tie.pool.PoolStep (.call (.addTransaction original Tie.utxoSet 200 0)) poolOfBoth :=
    ⟨1, true, returned outcome.1.1 fresh⟩
  have third : poolOfBoth.PoolStep (.call (.replaceTransaction replacement Tie.utxoSet 200 0)) pool :=
    ⟨1, true, returned outcome.1.2 fresh⟩
  have fourth : pool.PoolStep (.setMaxSize 0) bounded := by
    rw [PoolStep, bounded]
  exact (((Run.start.step first).step second).step third).step fourth

end StaleID

end Mempool

end Parthenon
