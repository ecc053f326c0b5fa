import Parthenon.Library.KeyedSet
import Parthenon.Validation.Validators

namespace Parthenon

open Library Crypto Primitives Chainstate Validation

/-! # The mempool

Unconfirmed transactions with a priority queue, the outpoints they spend and
their relations.  The sizes of the pool are bounded by the memory of the process
and do not wrap; the ancestor totals, which count a parent once for each output
of it that is spent, do.
-/

/-- The effective fee rate, highest first, then the entry time. -/
@[ext] structure Priority where
  feeRate : UInt64
  time : UInt32
deriving DecidableEq, Repr

namespace Priority

def byFeeRate (left right : Priority) : Ordering := compare right.feeRate left.feeRate

instance : Std.TransCmp byFeeRate :=
  inferInstanceAs (Std.TransCmp fun left right => compareOn Priority.feeRate right left)

instance : Ord Priority where
  compare := compareLex byFeeRate (compareOn (·.time))

instance : Std.TransOrd Priority :=
  inferInstanceAs (Std.TransCmp (compareLex byFeeRate (compareOn Priority.time)))

instance : Std.LawfulEqOrd Priority where
  compare_self {_} := Std.ReflCmp.compare_self
  eq_of_compare {left right} same := by
    obtain ⟨feeRate, time⟩ := compareLex_eq_eq.mp same
    exact Priority.ext (Std.LawfulEqOrd.eq_of_compare feeRate).symm
      (Std.LawfulEqOrd.eq_of_compare time)

end Priority

@[ext] structure MempoolEntry where
  tx : CachedTransaction
  fee : UInt64
  feeRate : UInt64
  time : UInt32
  height : UInt32
  size : Nat
  ancestorFee : UInt64
  ancestorSize : UInt64
  ancestorCount : UInt32
  signalsRbf : Bool
deriving DecidableEq, Repr

namespace MempoolEntry

def create (tx : CachedTransaction) (fee : UInt64) (time height : UInt32) (signalsRbf : Bool) :
    MempoolEntry :=
  let (size, tx) := tx.getSerializedSize
  { tx, fee
    feeRate := if size > 0 then UInt64.ofNat (fee.toNat / size) else 0
    time, height, size
    ancestorFee := fee
    ancestorSize := UInt64.ofNat size
    ancestorCount := 0
    signalsRbf }

def getEffectiveFeeRate (entry : MempoolEntry) : UInt64 :=
  let totalSize := if entry.ancestorSize > 0 then entry.ancestorSize else UInt64.ofNat entry.size
  let totalFee := if entry.ancestorFee > 0 then entry.ancestorFee else entry.fee
  if totalSize > 0 then totalFee / totalSize else 0

/-- What `operator<` compares. -/
def priority (entry : MempoolEntry) : Priority :=
  { feeRate := entry.getEffectiveFeeRate, time := entry.time }

end MempoolEntry

abbrev EntryMap := Std.ExtTreeMap Hash MempoolEntry compare

abbrev RelationMap := Std.ExtTreeMap Hash (List Hash) compare

structure Mempool where
  transactions : EntryMap
  priorityQueue : KeyedSet MempoolEntry.priority
  spentOutpoints : Std.ExtTreeMap OutPoint Hash compare
  children : RelationMap
  parents : RelationMap
  totalSize : Nat
  maxSize : Nat
  minRelayFee : UInt64

namespace Mempool

def fresh : Mempool where
  transactions := ∅
  priorityQueue := .empty
  spentOutpoints := ∅
  children := ∅
  parents := ∅
  totalSize := 0
  maxSize := 300 * 1024 * 1024
  minRelayFee := 1

def minRbfFeeIncrement : UInt64 := 1000

/-- The fee rate per thousand bytes.  `none` is the division by zero of a large
fee on a transaction of less than a thousand bytes. -/
def relayFeeRate (fee : UInt64) (txSize : Nat) : Option UInt64 :=
  if txSize > 0 then
    if fee ≤ 0xFFFFFFFFFFFFFFFF / 1000 then some (UInt64.ofNat ((fee * 1000).toNat / txSize))
    else if txSize / 1000 = 0 then none
    else some (UInt64.ofNat (fee.toNat / (txSize / 1000)))
  else some 0

def totalAmount (amounts : AmountMap) : UInt64 :=
  amounts.toList.foldl (fun total entry => total + entry.2) 0

/-- The fee and the size of a transaction that is accepted.  The outer `none` is
a call that does not return. -/
def validateTransaction (pool : Mempool) (tx : CachedTransaction) (utxoSet : UTXOSet)
    (height : UInt32) : Option (Option (UInt64 × Nat)) :=
  let (txSize, tx) := tx.getSerializedSize
  match TransactionValidator.validateStructure tx.toTransaction with
  | .error _ => some none
  | .ok () =>
      match TransactionValidator.validateAgainstUTXO tx.toTransaction utxoSet height with
      | .error _ => some none
      | .ok result =>
          let inputValue := totalAmount result.inputAmounts
          let outputValue := totalAmount result.outputAmounts
          let fee := if inputValue > outputValue then inputValue - outputValue else 0
          match relayFeeRate fee txSize with
          | none => none
          | some feeRate => some (if feeRate < pool.minRelayFee then none else some (fee, txSize))

def hasConflict (pool : Mempool) (tx : CachedTransaction) : Bool :=
  tx.prevouts.any fun outpoint => pool.spentOutpoints[outpoint]?.isSome

def checkRBFSignaling (tx : CachedTransaction) : Bool :=
  tx.inputs.any (·.sequence < 0xfffffffe)

/-- The pool transactions that spend an outpoint of the transaction, sorted and
without repetitions. -/
def getConflictingTransactions (pool : Mempool) (tx : CachedTransaction) : List Hash :=
  (Std.ExtTreeSet.ofList (tx.prevouts.filterMap (pool.spentOutpoints[·]?)) compare).toList

def calculateReplacedFees (pool : Mempool) (replacedTxids : List Hash) : UInt64 :=
  replacedTxids.foldl (fun total txid =>
    match pool.transactions[txid]? with
    | some entry => total + entry.fee
    | none => total) 0

def minReplacedFeeRate (pool : Mempool) (conflicting : List Hash) : UInt64 :=
  conflicting.foldl (fun least txid =>
    match pool.transactions[txid]? with
    | some entry => min least entry.feeRate
    | none => least) 0xFFFFFFFFFFFFFFFF

/-- The double nearest to a natural number, ties to even. -/
def roundToDouble (value : Nat) : Nat :=
  let shift := value.log2 + 1 - 53
  let quotient := value >>> shift
  let remainder := value - (quotient <<< shift)
  let half := 1 <<< shift
  if 2 * remainder > half ∨ (2 * remainder = half ∧ quotient % 2 = 1) then
    (quotient + 1) <<< shift
  else quotient <<< shift

/-- The double 1.1 in units of `2 ^ -52`. -/
def minRbfFeeRateMultiplier : Nat := 4953959590107546

/-- The comparison of two fee rates as doubles, the second one times 1.1. -/
def belowReplacementRate (newFeeRate minReplaced : UInt64) : Bool :=
  roundToDouble newFeeRate.toNat * 2 ^ 52 <
    roundToDouble (roundToDouble minReplaced.toNat * minRbfFeeRateMultiplier)

def pushRelation (relations : RelationMap) (key txid : Hash) : RelationMap :=
  relations.insert key (relations.getD key [] ++ [txid])

def updateRelationships (pool : Mempool) (txid : Hash) : Mempool :=
  match pool.transactions[txid]? with
  | none => pool
  | some entry =>
      entry.tx.prevouts.foldl (fun pool outpoint =>
        if pool.transactions.contains outpoint.txid then
          { pool with
            children := pushRelation pool.children outpoint.txid txid
            parents := pushRelation pool.parents txid outpoint.txid }
        else pool) pool

def removeFromRelationships (pool : Mempool) (txid : Hash) : Mempool :=
  let children := (pool.children.erase txid).map fun _ others => others.filter (· ≠ txid)
  match pool.parents[txid]? with
  | none => { pool with children }
  | some parentIds =>
      let children := parentIds.foldl (fun children parentId =>
        match children[parentId]? with
        | some others => children.insert parentId (others.filter (· ≠ txid))
        | none => children) children
      { pool with children, parents := pool.parents.erase txid }

def removeTransaction (pool : Mempool) (txid : Hash) : Bool × Mempool :=
  match pool.transactions[txid]? with
  | none => (false, pool)
  | some entry =>
      let pool := { pool with
        priorityQueue := pool.priorityQueue.erase entry
        spentOutpoints := entry.tx.prevouts.foldl (fun spent outpoint => spent.erase outpoint)
          pool.spentOutpoints }
      let pool := pool.removeFromRelationships txid
      (true, { pool with
        totalSize := pool.totalSize - entry.size
        transactions := pool.transactions.erase txid })

def removeTransactions (pool : Mempool) (txids : List Hash) : Mempool :=
  txids.foldl (fun pool txid => (pool.removeTransaction txid).2) pool

/-- Add what the ancestors in the pool count. -/
def withAncestors (pool : Mempool) (txid : Hash) (entry : MempoolEntry) : MempoolEntry :=
  let own : MempoolEntry :=
    { entry with
      ancestorFee := entry.fee, ancestorSize := UInt64.ofNat entry.size, ancestorCount := 0 }
  (pool.parents.getD txid []).foldl (fun total parentId =>
    match pool.transactions[parentId]? with
    | some parent =>
        { total with
          ancestorFee := total.ancestorFee + parent.ancestorFee
          ancestorSize := total.ancestorSize + parent.ancestorSize
          ancestorCount := total.ancestorCount + (parent.ancestorCount + 1) }
    | none => total) own

/-- Replace the entry of a transaction, in the queue as well. -/
def refresh (pool : Mempool) (txid : Hash) (entry refreshed : MempoolEntry) : Mempool :=
  { pool with
    priorityQueue := (pool.priorityQueue.erase entry).insert refreshed
    transactions := pool.transactions.insert txid refreshed }

/-- `none` is a recursion deeper than the fuel. -/
def updateAncestorState : Nat → Mempool → Hash → Option Mempool
  | 0, _, _ => none
  | fuel + 1, pool, txid =>
      match pool.transactions[txid]? with
      | none => some pool
      | some entry =>
          let pool := pool.refresh txid entry (pool.withAncestors txid entry)
          (pool.children.getD txid []).foldlM (updateAncestorState fuel) pool

/-- The eviction loop.  `none` is a loop that does not end: the queue's last
entry is of a transaction that is not in the pool, so nothing changes any more. -/
def evictFrom (requiredSpace : Nat) : Nat → Mempool → Option Mempool
  | 0, _ => none
  | rounds + 1, pool =>
      if pool.totalSize + requiredSpace > pool.maxSize then
        match pool.priorityQueue.last? with
        | none => some pool
        | some entry =>
            match pool.removeTransaction entry.tx.getTxID.1 with
            | (false, _) => none
            | (true, pool) => evictFrom requiredSpace rounds pool
      else some pool

/-- Each round but the last takes a transaction out of the pool. -/
def evictTransactions (pool : Mempool) (requiredSpace : Nat) : Option Mempool :=
  evictFrom requiredSpace (pool.transactions.size + 1) pool

/-- Store an entry with the outpoints it spends and its relations. -/
def insertEntry (pool : Mempool) (txid : Hash) (entry : MempoolEntry) : Mempool :=
  updateRelationships { pool with
    transactions := pool.transactions.insert txid entry
    priorityQueue := pool.priorityQueue.insert entry
    totalSize := pool.totalSize + entry.size
    spentOutpoints := entry.tx.prevouts.foldl (fun spent outpoint => spent.insert outpoint txid)
      pool.spentOutpoints } txid

/-- Whether the replacement pays enough, once it is valid. -/
def paysForReplacement (pool : Mempool) (conflicting : List Hash) (newFee : UInt64) (newSize : Nat) :
    Bool :=
  let replacedFees := pool.calculateReplacedFees conflicting
  let newFeeRate := if newSize > 0 then UInt64.ofNat (newFee.toNat / newSize) else 0
  !(newFee ≤ replacedFees) && !(newFee < replacedFees + minRbfFeeIncrement) &&
    !belowReplacementRate newFeeRate (pool.minReplacedFeeRate conflicting)

/-- `ReplaceTransaction` up to the point where the entry is stored: the pool it
has come to, and the entry unless the transaction is turned down. -/
def prepareReplacement (pool : Mempool) (tx : CachedTransaction) (utxoSet : UTXOSet)
    (height time : UInt32) : Option (Mempool × Option (Hash × MempoolEntry)) :=
  let (txid, tx) := tx.getTxID
  let conflicting := pool.getConflictingTransactions tx
  if conflicting.isEmpty then some (pool, none)
  else if !conflicting.all fun other => pool.transactions[other]?.any (·.signalsRbf) then
    some (pool, none)
  else
    match pool.validateTransaction tx utxoSet height with
    | none => none
    | some none => some (pool, none)
    | some (some (newFee, newSize)) =>
        if !pool.paysForReplacement conflicting newFee newSize then some (pool, none)
        else
          some (pool.removeTransactions conflicting,
            some (txid, .create tx newFee time height (checkRBFSignaling tx)))

/-- `AddTransaction` up to the point where the entry is stored. -/
def prepareAddition (pool : Mempool) (tx : CachedTransaction) (utxoSet : UTXOSet)
    (height time : UInt32) : Option (Mempool × Option (Hash × MempoolEntry)) :=
  let (txid, tx) := tx.getTxID
  if pool.transactions.contains txid then some (pool, none)
  else
    match pool.validateTransaction tx utxoSet height with
    | none => none
    | some none => some (pool, none)
    | some (some (fee, _)) =>
        if pool.hasConflict tx then
          if checkRBFSignaling tx then pool.prepareReplacement tx utxoSet height time
          else some (pool, none)
        else
          let entry := MempoolEntry.create tx fee time height (checkRBFSignaling tx)
          let evicted := if pool.totalSize + entry.size > pool.maxSize then
              pool.evictTransactions entry.size
            else some pool
          evicted.map fun pool =>
            if pool.totalSize + entry.size > pool.maxSize then (pool, none)
            else (pool, some (txid, entry))

/-- The end of `AddTransaction` and of `ReplaceTransaction`. -/
def storePrepared (fuel : Nat) :
    Option (Mempool × Option (Hash × MempoolEntry)) → Option (Bool × Mempool)
  | none => none
  | some (pool, none) => some (false, pool)
  | some (pool, some (txid, entry)) =>
      (updateAncestorState fuel (pool.insertEntry txid entry) txid).map ((true, ·))

/-- The call reads the clock as `time`.  `none` is a call that does not return. -/
def replaceTransaction (fuel : Nat) (pool : Mempool) (tx : CachedTransaction) (utxoSet : UTXOSet)
    (height time : UInt32) : Option (Bool × Mempool) :=
  storePrepared fuel (pool.prepareReplacement tx utxoSet height time)

/-- The call reads the clock as `time`.  `none` is a call that does not return. -/
def addTransaction (fuel : Nat) (pool : Mempool) (tx : CachedTransaction) (utxoSet : UTXOSet)
    (height time : UInt32) : Option (Bool × Mempool) :=
  storePrepared fuel (pool.prepareAddition tx utxoSet height time)

/-- The transactions of the pool that are not valid any more. -/
def invalidTransactions (pool : Mempool) (utxoSet : UTXOSet) (height : UInt32) :
    List (Hash × MempoolEntry) → Option (List Hash)
  | [] => some []
  | (txid, entry) :: rest =>
      match pool.validateTransaction entry.tx utxoSet height with
      | none => none
      | some none => (pool.invalidTransactions utxoSet height rest).map (txid :: ·)
      | some (some _) => pool.invalidTransactions utxoSet height rest

def removeConflicting (pool : Mempool) (confirmedTxs : List CachedTransaction) (utxoSet : UTXOSet)
    (height : UInt32) : Option Mempool :=
  let pool := pool.removeTransactions (confirmedTxs.map fun tx => tx.getTxID.1)
  match pool.invalidTransactions utxoSet height pool.transactions.toList with
  | none => none
  | some toRemove => some (pool.removeTransactions toRemove)

def setMaxSize (pool : Mempool) (size : Nat) : Mempool := { pool with maxSize := size }

def clear (pool : Mempool) : Mempool :=
  { pool with
    transactions := ∅, priorityQueue := .empty, spentOutpoints := ∅, children := ∅, parents := ∅
    totalSize := 0 }

def getTransactionsByFeeRate (pool : Mempool) (maxCount : Nat) : List CachedTransaction :=
  (pool.priorityQueue.toList.map (·.tx)).take maxCount

/-- The loop of `GetDescendants`, with the top of the stack first.  `none` is a loop
longer than the fuel. -/
def descendantsFrom (pool : Mempool) : Nat → List Hash → List Hash → Option (List Hash)
  | 0, _, _ => none
  | _ + 1, [], descendants => some descendants
  | fuel + 1, current :: toProcess, descendants =>
      let children := pool.children.getD current []
      descendantsFrom pool fuel (children.reverse ++ toProcess) (descendants ++ children)

def getDescendants (fuel : Nat) (pool : Mempool) (txid : Hash) : Option (List Hash) :=
  descendantsFrom pool fuel [txid] []

/-- Add a transaction of the pool to a package that does not have it. -/
def addToPackage (pool : Mempool) (package : List (Hash × CachedTransaction)) (txid : Hash) :
    List (Hash × CachedTransaction) :=
  if txid ∈ package.map Prod.fst then package
  else
    match pool.transactions[txid]? with
    | none => package
    | some entry => package ++ [(txid, entry.tx)]

/-- The package of a transaction, each member with its identifier. -/
def buildPackage (fuel : Nat) (pool : Mempool) (entry : MempoolEntry) :
    Option (List (Hash × CachedTransaction)) :=
  let (txid, tx) := entry.tx.getTxID
  let withParents := (pool.parents.getD txid []).foldl pool.addToPackage [(txid, tx)]
  (getDescendants fuel pool txid).map fun descendants => descendants.foldl pool.addToPackage withParents

/-- The loop of `GetTransactionPackages` over the queue. -/
def packagesFrom (fuel : Nat) (pool : Mempool) (maxCount : Nat) : List MempoolEntry →
    List (List (Hash × CachedTransaction)) → List Hash →
    Option (List (List (Hash × CachedTransaction)))
  | [], packages, _ => some packages
  | entry :: rest, packages, processed =>
      if packages.length ≥ maxCount then some packages
      else if entry.tx.getTxID.1 ∈ processed then packagesFrom fuel pool maxCount rest packages processed
      else
        match buildPackage fuel pool entry with
        | none => none
        | some package =>
            packagesFrom fuel pool maxCount rest (packages ++ [package])
              (processed ++ package.map Prod.fst)

/-- `none` is a call that does not return. -/
def getTransactionPackages (fuel : Nat) (pool : Mempool) (maxCount : Nat) :
    Option (List (List CachedTransaction)) :=
  (packagesFrom fuel pool maxCount pool.priorityQueue.toList [] []).map
    (·.map fun package => package.map Prod.snd)

end Mempool

end Parthenon
