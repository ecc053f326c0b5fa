import Parthenon.Mempool.Mempool

namespace Parthenon

open Library Crypto Primitives Chainstate

/-! # What the calls come to

The exits of `ReplaceTransaction` and `AddTransaction` before an entry is stored,
each with what has been found by then.
-/

namespace Mempool

/-- The entry of a transaction with the given fee. -/
def entryFor (tx : CachedTransaction) (fee : UInt64) (time height : UInt32) : MempoolEntry :=
  .create tx.getTxID.2 fee time height (checkRBFSignaling tx.getTxID.2)

def conflicts (pool : Mempool) (tx : CachedTransaction) : List Hash :=
  pool.getConflictingTransactions tx.getTxID.2

inductive Replacement (pool : Mempool) (tx : CachedTransaction) (utxoSet : UTXOSet)
    (height time : UInt32) : Mempool → Option (Hash × MempoolEntry) → Prop
  | refused : Replacement pool tx utxoSet height time pool none
  | stored (someConflict : pool.conflicts tx ≠ []) (fee : UInt64) (size : Nat)
      (signalled : ∀ other ∈ pool.conflicts tx, ∃ entry, pool.transactions[other]? = some entry ∧
        entry.signalsRbf = true)
      (valid : pool.validateTransaction tx.getTxID.2 utxoSet height = some (some (fee, size)))
      (pays : pool.paysForReplacement (pool.conflicts tx) fee size = true) :
      Replacement pool tx utxoSet height time (pool.removeTransactions (pool.conflicts tx))
        (some (tx.getTxID.1, entryFor tx fee time height))

theorem prepareReplacement_cases {pool ready : Mempool} {tx : CachedTransaction}
    {utxoSet : UTXOSet} {height time : UInt32} {pending : Option (Hash × MempoolEntry)}
    (prepared : pool.prepareReplacement tx utxoSet height time = some (ready, pending)) :
    Replacement pool tx utxoSet height time ready pending := by
  unfold prepareReplacement at prepared
  dsimp only at prepared
  split at prepared
  · cases prepared
    exact .refused
  · rename_i someConflict
    split at prepared
    · cases prepared
      exact .refused
    · rename_i allSignal
      cases valid : pool.validateTransaction tx.getTxID.2 utxoSet height with
      | none =>
          rw [valid] at prepared
          cases prepared
      | some outcome =>
          rw [valid] at prepared
          cases outcome with
          | none =>
              cases prepared
              exact .refused
          | some accepted =>
              obtain ⟨fee, size⟩ := accepted
              dsimp only at prepared
              split at prepared
              · cases prepared
                exact .refused
              · rename_i pays
                cases prepared
                have paid : pool.paysForReplacement (pool.conflicts tx) fee size = true := by
                  rw [Bool.not_eq_true, Bool.not_eq_false'] at pays
                  exact pays
                refine .stored ?_ fee size ?_ valid paid
                · intro none
                  exact someConflict (List.isEmpty_iff.mpr none)
                · intro other member
                  rw [Bool.not_eq_true, Bool.not_eq_false', List.all_eq_true] at allSignal
                  have signals := allSignal other member
                  cases found : pool.transactions[other]? with
                  | none => simp [found] at signals
                  | some entry => exact ⟨entry, rfl, by simpa [found] using signals⟩

/-- An addition hands its object on with the identifier cached. -/
theorem prepareReplacement_getTxID (pool : Mempool) (tx : CachedTransaction) (utxoSet : UTXOSet)
    (height time : UInt32) :
    pool.prepareReplacement tx.getTxID.2 utxoSet height time =
      pool.prepareReplacement tx utxoSet height time := by
  unfold prepareReplacement
  rw [CachedTransaction.getTxID_again]

/-- The pool after eviction for an entry of the given size, if there is any need of it. -/
def makeRoom (pool : Mempool) (size : Nat) : Option Mempool :=
  if pool.totalSize + size > pool.maxSize then pool.evictTransactions size else some pool

def sizeOf (tx : CachedTransaction) : Nat := tx.getTxID.2.getSerializedSize.1

theorem entryFor_size (tx : CachedTransaction) (fee : UInt64) (time height : UInt32) :
    (entryFor tx fee time height).size = sizeOf tx := rfl

inductive Addition (pool : Mempool) (tx : CachedTransaction) (utxoSet : UTXOSet)
    (height time : UInt32) : Mempool → Option (Hash × MempoolEntry) → Prop
  | refused : Addition pool tx utxoSet height time pool none
  | replaced (absent : pool.transactions[tx.getTxID.1]? = none)
      (conflict : pool.hasConflict tx.getTxID.2 = true)
      (reached : Replacement pool tx utxoSet height time ready pending) :
      Addition pool tx utxoSet height time ready pending
  | full (absent : pool.transactions[tx.getTxID.1]? = none) (fee : UInt64) (size : Nat)
      (valid : pool.validateTransaction tx.getTxID.2 utxoSet height = some (some (fee, size)))
      (noConflict : pool.hasConflict tx.getTxID.2 = false)
      (evicted : pool.makeRoom (sizeOf tx) = some ready)
      (tight : ready.totalSize + sizeOf tx > ready.maxSize) :
      Addition pool tx utxoSet height time ready none
  | stored (absent : pool.transactions[tx.getTxID.1]? = none) (fee : UInt64) (size : Nat)
      (valid : pool.validateTransaction tx.getTxID.2 utxoSet height = some (some (fee, size)))
      (noConflict : pool.hasConflict tx.getTxID.2 = false)
      (evicted : pool.makeRoom (sizeOf tx) = some ready)
      (room : ready.totalSize + sizeOf tx ≤ ready.maxSize) :
      Addition pool tx utxoSet height time ready
        (some (tx.getTxID.1, entryFor tx fee time height))

theorem prepareAddition_cases {pool ready : Mempool} {tx : CachedTransaction}
    {utxoSet : UTXOSet} {height time : UInt32} {pending : Option (Hash × MempoolEntry)}
    (prepared : pool.prepareAddition tx utxoSet height time = some (ready, pending)) :
    Addition pool tx utxoSet height time ready pending := by
  unfold prepareAddition at prepared
  dsimp only at prepared
  split at prepared
  · cases prepared
    exact .refused
  · rename_i unknown
    have absent : pool.transactions[tx.getTxID.1]? = none := by
      rw [Std.ExtTreeMap.contains_eq_isSome_getElem?] at unknown
      exact Option.not_isSome_iff_eq_none.mp unknown
    cases valid : pool.validateTransaction tx.getTxID.2 utxoSet height with
    | none =>
        rw [valid] at prepared
        cases prepared
    | some outcome =>
        rw [valid] at prepared
        cases outcome with
        | none =>
            cases prepared
            exact .refused
        | some accepted =>
            obtain ⟨fee, size⟩ := accepted
            dsimp only at prepared
            split at prepared
            · rename_i conflict
              split at prepared
              · rw [prepareReplacement_getTxID] at prepared
                exact .replaced absent conflict (prepareReplacement_cases prepared)
              · cases prepared
                exact .refused
            · rename_i noConflict
              have unspent : pool.hasConflict tx.getTxID.2 = false := Bool.eq_false_iff.mpr noConflict
              obtain ⟨evicted, isEvicted, prepared⟩ := Option.map_eq_some_iff.mp prepared
              split at prepared
              · rename_i tight
                cases prepared
                exact .full absent fee size valid unspent isEvicted tight
              · rename_i room
                cases prepared
                exact .stored absent fee size valid unspent isEvicted (Nat.not_lt.mp room)

theorem Replacement.entry_eq {pool ready : Mempool} {tx : CachedTransaction} {utxoSet : UTXOSet}
    {height time : UInt32} {txid : Hash} {entry : MempoolEntry}
    (reached : Replacement pool tx utxoSet height time ready (some (txid, entry))) :
    txid = tx.getTxID.1 ∧ ∃ fee, entry = entryFor tx fee time height := by
  cases reached with
  | stored someConflict fee size signalled valid pays => exact ⟨rfl, fee, rfl⟩

/-- What is stored is an entry of the transaction, under its identifier. -/
theorem Addition.entry_eq {pool ready : Mempool} {tx : CachedTransaction} {utxoSet : UTXOSet}
    {height time : UInt32} {txid : Hash} {entry : MempoolEntry}
    (reached : Addition pool tx utxoSet height time ready (some (txid, entry))) :
    txid = tx.getTxID.1 ∧ ∃ fee, entry = entryFor tx fee time height := by
  cases reached with
  | replaced absent conflict reached => exact reached.entry_eq
  | stored absent fee size valid noConflict evicted room => exact ⟨rfl, fee, rfl⟩

/-- An addition that needs room ends with what eviction has left. -/
theorem prepareAddition_makeRoom {pool ready : Mempool} {tx : CachedTransaction} {utxoSet : UTXOSet}
    {height : UInt32} (time : UInt32) {fee : UInt64} {size : Nat}
    (absent : pool.transactions[tx.getTxID.1]? = none)
    (valid : pool.validateTransaction tx.getTxID.2 utxoSet height = some (some (fee, size)))
    (noConflict : pool.hasConflict tx.getTxID.2 = false)
    (evicted : pool.makeRoom (sizeOf tx) = some ready) :
    pool.prepareAddition tx utxoSet height time =
      some (if ready.totalSize + sizeOf tx > ready.maxSize then (ready, none)
        else (ready, some (tx.getTxID.1, entryFor tx fee time height))) := by
  have unknown : pool.transactions.contains tx.getTxID.1 = false := by
    rw [Std.ExtTreeMap.contains_eq_isSome_getElem?, absent]
    rfl
  unfold prepareAddition
  dsimp only
  rw [unknown, valid, noConflict]
  simp only [Bool.false_eq_true, if_false]
  rw [makeRoom] at evicted
  change Option.map _ (if pool.totalSize + sizeOf tx > pool.maxSize then
    pool.evictTransactions (sizeOf tx) else some pool) = _
  rw [evicted]
  rfl

theorem storePrepared_false {fuel : Nat} {after : Mempool}
    {outcome : Option (Mempool × Option (Hash × MempoolEntry))} :
    storePrepared fuel outcome = some (false, after) ↔ outcome = some (after, none) := by
  constructor
  · intro done
    unfold storePrepared at done
    split at done
    · cases done
    · cases done
      rfl
    · obtain ⟨_, _, impossible⟩ := Option.map_eq_some_iff.mp done
      cases impossible
  · intro isNone
    rw [isNone]
    rfl

theorem storePrepared_true {fuel : Nat} {after : Mempool}
    {outcome : Option (Mempool × Option (Hash × MempoolEntry))}
    (done : storePrepared fuel outcome = some (true, after)) :
    ∃ ready txid entry, outcome = some (ready, some (txid, entry)) ∧
      updateAncestorState fuel (ready.insertEntry txid entry) txid = some after := by
  unfold storePrepared at done
  split at done
  · cases done
  · cases done
  · rename_i ready txid entry
    obtain ⟨updated, isUpdated, same⟩ := Option.map_eq_some_iff.mp done
    cases same
    exact ⟨ready, txid, entry, rfl, isUpdated⟩

end Mempool

end Parthenon
