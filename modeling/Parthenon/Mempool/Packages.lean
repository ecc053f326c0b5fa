import Parthenon.Library.Ancestry
import Parthenon.Library.Grouping
import Parthenon.Mempool.AncestorTotals

namespace Parthenon

open Library Crypto Primitives Chainstate Relation

/-! # Packages

A package is a queued transaction, then its parents, then what the walk over the
children lists finds.  So it can be mined where it starts with a transaction that has
no parents in the pool and the walk meets every transaction after its parents.
-/

namespace Mempool

def queueIDs (pool : Mempool) : List Hash := pool.priorityQueue.toList.map (·.tx.getTxID.1)

/-- Nothing of the pool is spent. -/
def leads (pool : Mempool) (txid : Hash) : Bool :=
  pool.transactions[txid]?.all fun entry => (pool.parentsIn entry).isEmpty

/-- The depth-first listing of what descends from a transaction, the last child first. -/
def listingOf (pool : Mempool) (txid : Hash) : List Hash :=
  listing pool.childrenOf (pool.transactions.size + 1) txid

def packageIDs (packages : List (List CachedTransaction)) : List (List Hash) :=
  packages.map (·.map (·.getTxID.1))

/-- No transaction is there twice, every package has the ancestors of its transactions
unless an earlier one has, and parents precede their children. -/
structure Mineable (pool : Mempool) (packages : List (List Hash)) : Prop where
  unique : packages.flatten.Nodup
  closed : ∀ earlier package later, packages = earlier ++ package :: later →
    ∀ txid ∈ package, ∀ ancestor, TransGen pool.IsParent ancestor txid →
      ancestor ∈ package ∨ ancestor ∈ earlier.flatten
  ordered : ParentsFirst pool.IsParent packages.flatten

/-- The queue is led by transactions without parents, and the listing from each of the
first of them has every transaction after its parents. -/
structure Arranged (pool : Mempool) (maxCount : Nat) : Prop where
  led : Led pool.IsParent pool.leads pool.queueIDs maxCount
  listed : ∀ leader ∈ leaders pool.leads pool.queueIDs maxCount,
    ParentsFirst pool.IsParent (leader :: pool.listingOf leader)

theorem mineable_iff {pool : Mempool} {packages : List (List Hash)} :
    pool.Mineable packages ↔
      packages.flatten.Nodup ∧ ParentsFirst pool.IsParent packages.flatten := by
  constructor
  · intro mineable
    exact ⟨mineable.unique, mineable.ordered⟩
  · intro both
    obtain ⟨unique, ordered⟩ := both
    refine ⟨unique, ?_, ordered⟩
    intro earlier package later split txid member ancestor path
    rw [split, List.flatten_append, List.flatten_cons, ← List.append_assoc] at ordered
    have found := ordered.front.mem_of_transGen path (List.mem_append_right _ member)
    exact (List.mem_append.mp found).symm

/-! ## The walk -/

theorem Related.fewer_ancestors {pool : Mempool} (related : pool.Related) {parent child : Hash}
    (isParent : pool.IsParent parent child) :
    (pool.ancestors parent).card < (pool.ancestors child).card := by
  apply Finset.card_lt_card
  refine ⟨?_, ?_⟩
  · intro other member
    exact mem_ancestors.mpr ((mem_ancestors.mp member).tail isParent)
  · intro subset
    exact related.not_own parent (subset (mem_ancestors.mpr (.single isParent)))

theorem ancestors_card_le (pool : Mempool) (txid : Hash) :
    (pool.ancestors txid).card ≤ pool.transactions.size := by
  classical
  calc (pool.ancestors txid).card
    _ ≤ pool.transactions.keys.toFinset.card := Finset.card_filter_le _ _
    _ ≤ pool.transactions.keys.length := List.toFinset_card_le _
    _ = pool.transactions.size := Std.ExtTreeMap.length_keys

/-- How far the children of a transaction may go on. -/
noncomputable def reach (pool : Mempool) (txid : Hash) : Nat :=
  pool.transactions.size - (pool.ancestors txid).card

theorem Related.ranked {pool : Mempool} (related : pool.Related) :
    ∀ txid, ∀ child ∈ pool.childrenOf txid, pool.reach child < pool.reach txid := by
  intro txid child member
  have more := related.fewer_ancestors ((related.children txid child).mp member)
  have bound := pool.ancestors_card_le child
  rw [reach, reach]
  omega

theorem reach_lt (pool : Mempool) (txid : Hash) : pool.reach txid < pool.transactions.size + 1 := by
  rw [reach]
  omega

theorem descendantsFrom_eq (pool : Mempool) (fuel : Nat) (toProcess descendants : List Hash) :
    pool.descendantsFrom fuel toProcess descendants =
      walkFrom pool.childrenOf fuel toProcess descendants := by
  induction fuel generalizing toProcess descendants with
  | zero => rfl
  | succ fuel ih =>
      cases toProcess with
      | nil => rfl
      | cons current rest => exact ih _ _

theorem Related.getDescendants {pool : Mempool} (related : pool.Related) (txid : Hash) :
    (∀ fuel result, getDescendants fuel pool txid = some result → result = pool.listingOf txid) ∧
      ∃ enough, ∀ fuel, enough < fuel → getDescendants fuel pool txid = some (pool.listingOf txid) := by
  have bounded : ∀ node ∈ [txid], pool.reach node < pool.transactions.size + 1 := by
    intro node _
    exact pool.reach_lt node
  have walk (fuel : Nat) := walkFrom_eq related.ranked fuel [] bounded
  simp only [List.nil_append, List.flatMap_singleton] at walk
  have correct (fuel : Nat) (result : List Hash)
      (done : Mempool.getDescendants fuel pool txid = some result) : result = pool.listingOf txid := by
    rw [Mempool.getDescendants, descendantsFrom_eq] at done
    exact (walk fuel).1 result done
  refine ⟨correct, (passed pool.childrenOf (pool.transactions.size + 1) txid).length, ?_⟩
  intro fuel more
  obtain ⟨result, done⟩ := (walk fuel).2 more
  rw [← descendantsFrom_eq, ← Mempool.getDescendants] at done
  rw [done, correct fuel result done]

theorem Related.childrenOf_eq {pool : Mempool} (related : pool.Related) :
    (fun parent child => child ∈ pool.childrenOf parent) = pool.IsParent := by
  funext parent child
  exact propext (related.children parent child)

theorem Related.mem_listingOf {pool : Mempool} (related : pool.Related) {txid other : Hash} :
    other ∈ pool.listingOf txid ↔ TransGen pool.IsParent txid other := by
  rw [listingOf, mem_listing related.ranked (pool.reach_lt txid), related.childrenOf_eq]

/-! ## One package -/

/-- The identifiers of the package of a transaction. -/
def packageOf (pool : Mempool) (txid : Hash) : List Hash :=
  ((pool.parentsOf txid ++ pool.listingOf txid).filter pool.holds).foldl appendNew [txid]

/-- Each member of a package stands with its own identifier. -/
def Named (package : List (Hash × CachedTransaction)) : Prop :=
  ∀ member ∈ package, member.2.getTxID.1 = member.1

theorem addToPackage_spec {pool : Mempool} (linked : pool.Linked)
    {package : List (Hash × CachedTransaction)} (named : Named package) (txid : Hash) :
    (pool.addToPackage package txid).map Prod.fst =
        (if pool.holds txid then appendNew (package.map Prod.fst) txid else package.map Prod.fst) ∧
      Named (pool.addToPackage package txid) := by
  rw [addToPackage, appendNew]
  by_cases known : txid ∈ package.map Prod.fst
  · rw [if_pos known, if_pos known, ite_self]
    exact ⟨rfl, named⟩
  · rw [if_neg known, if_neg known]
    cases found : pool.transactions[txid]? with
    | none =>
        rw [holds_eq_false_iff.mpr found]
        exact ⟨rfl, named⟩
    | some entry =>
        rw [holds_iff.mpr ⟨entry, found⟩]
        refine ⟨List.map_append, ?_⟩
        intro member listed
        cases List.mem_append.mp listed with
        | inl before => exact named member before
        | inr last =>
            rw [List.mem_singleton.mp last]
            exact CachedTransaction.getTxID_of_cached (linked.named txid entry found)

theorem addAllToPackage_spec {pool : Mempool} (linked : pool.Linked)
    {package : List (Hash × CachedTransaction)} (named : Named package) (nodes : List Hash) :
    (nodes.foldl pool.addToPackage package).map Prod.fst =
        (nodes.filter pool.holds).foldl appendNew (package.map Prod.fst) ∧
      Named (nodes.foldl pool.addToPackage package) := by
  induction nodes generalizing package with
  | nil => exact ⟨rfl, named⟩
  | cons txid rest ih =>
      obtain ⟨listed, stillNamed⟩ := addToPackage_spec linked named txid
      obtain ⟨all, allNamed⟩ := ih stillNamed
      rw [List.foldl_cons]
      refine ⟨?_, allNamed⟩
      rw [all, listed, List.filter_cons]
      split
      · rfl
      · rfl

theorem buildPackage_spec {pool : Mempool} (linked : pool.Linked) (related : pool.Related)
    {fuel : Nat} {entry : MempoolEntry} {package : List (Hash × CachedTransaction)}
    (built : buildPackage fuel pool entry = some package) :
    package.map Prod.fst = pool.packageOf entry.tx.getTxID.1 ∧ Named package := by
  obtain ⟨descendants, found, isPackage⟩ := Option.map_eq_some_iff.mp built
  rw [(related.getDescendants _).1 fuel descendants found, ← List.foldl_append] at isPackage
  have seed : Named [entry.tx.getTxID] := by
    intro member listed
    rw [List.mem_singleton.mp listed, CachedTransaction.getTxID_again]
  have added := addAllToPackage_spec linked seed
    (pool.parentsOf entry.tx.getTxID.1 ++ pool.listingOf entry.tx.getTxID.1)
  rw [← isPackage]
  exact added

theorem buildPackage_returns {pool : Mempool} (related : pool.Related) (entry : MempoolEntry) :
    ∃ enough, ∀ fuel, enough < fuel → ∃ package, buildPackage fuel pool entry = some package := by
  obtain ⟨enough, returns⟩ := (related.getDescendants entry.tx.getTxID.1).2
  refine ⟨enough, ?_⟩
  intro fuel more
  exact ⟨_, Option.map_eq_some_iff.mpr ⟨_, returns fuel more, rfl⟩⟩

theorem Related.mem_parents {pool : Mempool} (related : pool.Related) {txid other : Hash} :
    other ∈ (pool.parentsOf txid).filter pool.holds ↔ pool.IsParent other txid := by
  cases found : pool.transactions[txid]? with
  | none =>
      rw [related.orphans txid found]
      constructor
      · intro member
        cases member
      · intro isParent
        obtain ⟨_, entry, stored, _⟩ := isParent
        rw [found] at stored
        cases stored
  | some entry =>
      rw [related.parents txid entry found, List.mem_filter]
      constructor
      · intro member
        exact ⟨member.2, entry, found, member.1⟩
      · intro isParent
        obtain ⟨held, stored, isStored, spends⟩ := isParent
        rw [found] at isStored
        cases isStored
        exact ⟨spends, held⟩

theorem Related.packageOf_eq {pool : Mempool} (related : pool.Related) (txid : Hash) :
    pool.packageOf txid =
      ((pool.parentsOf txid).filter pool.holds ++ pool.listingOf txid).foldl appendNew [txid] := by
  have allHeld : (pool.listingOf txid).filter pool.holds = pool.listingOf txid := by
    rw [List.filter_eq_self]
    intro other listed
    obtain ⟨_, _, edge⟩ := TransGen.tail'_iff.mp (related.mem_listingOf.mp listed)
    obtain ⟨_, entry, found, _⟩ := edge
    exact holds_iff.mpr ⟨entry, found⟩
  rw [packageOf, List.filter_append, allHeld]

/-- A package has the transaction, its parents and its descendants. -/
theorem Related.leading {pool : Mempool} (related : pool.Related) :
    Leading pool.IsParent pool.packageOf pool.leads where
  first := by
    intro txid
    obtain ⟨more, isMore⟩ := foldl_appendNew_prefix
      ((pool.parentsOf txid ++ pool.listingOf txid).filter pool.holds) [txid]
    exact ⟨more, isMore⟩
  distinct txid := nodup_foldl_appendNew (List.nodup_singleton txid)
  mem := by
    intro txid other
    rw [related.packageOf_eq, mem_foldl_appendNew, List.mem_singleton, List.mem_append,
      related.mem_parents, related.mem_listingOf]
  source := by
    intro txid
    rw [leads, Option.all_eq_true]
    constructor
    · intro none_ parent isParent
      obtain ⟨held, entry, found, spends⟩ := isParent
      have member : parent ∈ pool.parentsIn entry := List.mem_filter.mpr ⟨spends, held⟩
      rw [List.isEmpty_iff.mp (none_ entry found)] at member
      cases member
    · intro none_ entry found
      rw [List.isEmpty_iff, List.eq_nil_iff_forall_not_mem]
      intro parent member
      obtain ⟨spends, held⟩ := List.mem_filter.mp member
      exact none_ parent ⟨held, entry, found, spends⟩

/-- The package of a leader is its listing, each transaction once. -/
theorem Related.packageOf_ordered_iff {pool : Mempool} (related : pool.Related) {txid : Hash}
    (isLeader : pool.leads txid = true) :
    ParentsFirst pool.IsParent (pool.packageOf txid) ↔
      ParentsFirst pool.IsParent (txid :: pool.listingOf txid) := by
  have noParents : (pool.parentsOf txid).filter pool.holds = [] := by
    rw [List.eq_nil_iff_forall_not_mem]
    intro parent member
    exact (related.leading.source txid).mp isLeader parent (related.mem_parents.mp member)
  rw [related.packageOf_eq, noParents, List.nil_append, parentsFirst_foldl_appendNew]
  rfl

/-! ## The loop -/

theorem Linked.queueIDs_nodup {pool : Mempool} (linked : pool.Linked) : pool.queueIDs.Nodup := by
  refine List.Nodup.map_on ?_ (KeyedSet.toList_nodup pool.priorityQueue)
  intro left leftListed right rightListed same
  have leftIn := KeyedSet.mem_toList.mp leftListed
  have rightIn := KeyedSet.mem_toList.mp rightListed
  obtain ⟨held, found, leftPriority⟩ := linked.live left leftIn
  obtain ⟨other, isOther, rightPriority⟩ := linked.live right rightIn
  rw [same, isOther] at found
  cases found
  exact KeyedSet.eq_of_key_eq leftIn rightIn (leftPriority.symm.trans rightPriority)

theorem packagesFrom_spec {pool : Mempool} (linked : pool.Linked) (related : pool.Related)
    {fuel maxCount : Nat} {queue : List MempoolEntry}
    {packages result : List (List (Hash × CachedTransaction))} {processed : List Hash}
    (named : ∀ package ∈ packages, Named package)
    (tracked : processed = (packages.map (·.map Prod.fst)).flatten)
    (done : packagesFrom fuel pool maxCount queue packages processed = some result) :
    result.map (·.map Prod.fst) = groupsFrom pool.packageOf maxCount
        (queue.map (·.tx.getTxID.1)) (packages.map (·.map Prod.fst)) ∧
      ∀ package ∈ result, Named package := by
  induction queue generalizing packages processed with
  | nil =>
      cases done
      exact ⟨rfl, named⟩
  | cons entry rest ih =>
      rw [packagesFrom] at done
      rw [List.map_cons, groupsFrom, List.length_map, ← tracked]
      split at done
      · rename_i full
        cases done
        rw [if_pos full]
        exact ⟨rfl, named⟩
      · rename_i notFull
        rw [if_neg notFull]
        split at done
        · rename_i known
          rw [if_pos known]
          exact ih named tracked done
        · rename_i new
          rw [if_neg new]
          cases built : buildPackage fuel pool entry with
          | none =>
              rw [built] at done
              cases done
          | some package =>
              rw [built] at done
              obtain ⟨listed, packageNamed⟩ := buildPackage_spec linked related built
              have allNamed : ∀ other ∈ packages ++ [package], Named other := by
                intro other member
                cases List.mem_append.mp member with
                | inl before => exact named other before
                | inr last => exact List.mem_singleton.mp last ▸ packageNamed
              have allTracked : processed ++ package.map Prod.fst =
                  ((packages ++ [package]).map (·.map Prod.fst)).flatten := by
                rw [tracked, List.map_append, List.flatten_append, List.map_singleton,
                  List.flatten_singleton]
              have next := ih allNamed allTracked done
              rw [List.map_append, List.map_singleton, listed] at next
              exact next

theorem packagesFrom_returns {pool : Mempool} (related : pool.Related) (maxCount : Nat)
    (queue : List MempoolEntry) : ∃ enough, ∀ fuel, enough < fuel → ∀ packages processed,
      ∃ result, packagesFrom fuel pool maxCount queue packages processed = some result := by
  induction queue with
  | nil => exact ⟨0, fun _ _ packages _ => ⟨packages, rfl⟩⟩
  | cons entry rest ih =>
      obtain ⟨forEntry, entryReturns⟩ := buildPackage_returns related entry
      obtain ⟨forRest, restReturns⟩ := ih
      refine ⟨max forEntry forRest, ?_⟩
      intro fuel more packages processed
      have rest := restReturns fuel (by omega)
      rw [packagesFrom]
      split
      · exact ⟨packages, rfl⟩
      · split
        · exact rest packages processed
        · obtain ⟨package, built⟩ := entryReturns fuel (by omega)
          rw [built]
          exact rest _ _

/-- The call returns the packages of the leading transactions, in the order of the queue. -/
theorem getTransactionPackages_ids {pool : Mempool} (linked : pool.Linked) (related : pool.Related)
    {fuel maxCount : Nat} {packages : List (List CachedTransaction)}
    (done : getTransactionPackages fuel pool maxCount = some packages) :
    packageIDs packages = groupsFrom pool.packageOf maxCount pool.queueIDs [] := by
  obtain ⟨result, found, isPackages⟩ := Option.map_eq_some_iff.mp done
  have none_ : ∀ package ∈ ([] : List (List (Hash × CachedTransaction))), Named package := by
    intro package member
    cases member
  obtain ⟨listed, named⟩ := packagesFrom_spec linked related none_ rfl found
  rw [queueIDs, ← List.map_nil, ← listed, packageIDs, ← isPackages, List.map_map]
  apply List.map_congr_left
  intro package member
  rw [Function.comp_apply, List.map_map]
  apply List.map_congr_left
  intro pair inPackage
  exact named package member pair inPackage

/-! A child that pays for its parent. -/
namespace ChildFirst

def parent : CachedTransaction :=
  .ofTransaction (Sample.spend Tie.firstOutpoint .empty [Sample.output 1900 ⟨[1], ByteVector.one_fits⟩])

def parentID : Hash := parent.getTxID.1

def child : CachedTransaction :=
  .ofTransaction (Sample.spend ⟨parentID, 0⟩ .empty [Sample.output 100 ⟨[1], ByteVector.one_fits⟩])

def childID : Hash := child.getTxID.1

def utxoSet : UTXOSet :=
  UTXOSet.addCoin Tie.utxoSet ⟨parentID, 0⟩
    { Tie.coin with output := Sample.output 1900 ⟨[1], ByteVector.one_fits⟩ }

def added : Option (Bool × Mempool) := fresh.addTransaction 1 parent utxoSet 200 0

def poolOfParent : Mempool := (added.map Prod.snd).getD fresh

def addedBoth : Option (Bool × Mempool) := poolOfParent.addTransaction 1 child utxoSet 200 0

def pool : Mempool := (addedBoth.map Prod.snd).getD fresh

/-- Both are taken, and the child is packaged before its parent. -/
theorem outcome : added.map Prod.fst = some true ∧ addedBoth.map Prod.fst = some true ∧
    (getTransactionPackages 2 pool 1).map packageIDs = some [[childID, parentID]] ∧
    pool.holds parentID = true ∧ (pool.transactions[childID]?.map sources) = some [parentID] := by
  decide +kernel

def calls : List PoolCall :=
  [] ++ [.call (.addTransaction parent utxoSet 200 0)] ++ [.call (.addTransaction child utxoSet 200 0)]

theorem run : Run PoolStep fresh calls pool := by
  have first : fresh.PoolStep (.call (.addTransaction parent utxoSet 200 0)) poolOfParent :=
    ⟨1, true, returned outcome.1 fresh⟩
  have second : poolOfParent.PoolStep (.call (.addTransaction child utxoSet 200 0)) pool :=
    ⟨1, true, returned outcome.2.1 fresh⟩
  exact (Run.start.step first).step second

theorem packaged : (getTransactionPackages 2 pool 1).map packageIDs = some [[childID, parentID]] ∧
    pool.holds parentID = true ∧ (pool.transactions[childID]?.map sources) = some [parentID] :=
  outcome.2.2

end ChildFirst

end Mempool

end Parthenon
