import Parthenon.Library.Ancestry
import Parthenon.Mempool.EvictionEnds

namespace Parthenon

open Library Crypto Primitives Chainstate Relation

/-! # The relations of the pool

The parents and the children that a pool keeps, against the transactions of the pool
that spend one another.  They are recorded when a child is stored, so they agree as
long as no transaction is stored after one that spends its outputs.
-/

namespace Mempool

def parentsOf (pool : Mempool) (txid : Hash) : List Hash := pool.parents.getD txid []

def childrenOf (pool : Mempool) (txid : Hash) : List Hash := pool.children.getD txid []

/-- The transactions whose outputs are spent, once for each input. -/
def sources (entry : MempoolEntry) : List Hash := entry.tx.prevouts.map (·.txid)

def holds (pool : Mempool) (txid : Hash) : Bool := pool.transactions.contains txid

/-- Both are in the pool, and the child spends an output of the parent. -/
def IsParent (pool : Mempool) (parent child : Hash) : Prop :=
  pool.holds parent = true ∧ ∃ entry, pool.transactions[child]? = some entry ∧ parent ∈ sources entry

theorem holds_iff {pool : Mempool} {txid : Hash} :
    pool.holds txid = true ↔ ∃ entry, pool.transactions[txid]? = some entry := by
  rw [holds, Std.ExtTreeMap.contains_eq_isSome_getElem?, Option.isSome_iff_exists]

theorem holds_eq_false_iff {pool : Mempool} {txid : Hash} :
    pool.holds txid = false ↔ pool.transactions[txid]? = none := by
  rw [holds, Std.ExtTreeMap.contains_eq_isSome_getElem?, Option.isSome_eq_false_iff,
    Option.isNone_iff_eq_none]

theorem holds_of_same {left right : Mempool} (same : sameTransactions left right) (txid : Hash) :
    left.holds txid = right.holds txid := by
  have both := congrArg Option.isSome (same txid)
  rw [Option.isSome_map, Option.isSome_map] at both
  rw [holds, holds, Std.ExtTreeMap.contains_eq_isSome_getElem?,
    Std.ExtTreeMap.contains_eq_isSome_getElem?, both]

/-- The relations agree with what the transactions spend, and nothing descends from itself. -/
structure Related (pool : Mempool) : Prop where
  orphans : ∀ child, pool.transactions[child]? = none → pool.parentsOf child = []
  known : ∀ child entry, pool.transactions[child]? = some entry →
    ∀ parent ∈ pool.parentsOf child, parent ∈ sources entry
  parents : ∀ child entry, pool.transactions[child]? = some entry →
    (pool.parentsOf child).filter pool.holds = (sources entry).filter pool.holds
  children : ∀ parent child, child ∈ pool.childrenOf parent ↔ pool.IsParent parent child
  acyclic : ∀ txid, ¬ TransGen pool.IsParent txid txid

theorem fresh_related : fresh.Related where
  orphans child _ := Std.ExtTreeMap.getD_empty
  known := by
    intro child entry found
    exact absurd found not_found_empty
  parents := by
    intro child entry found
    exact absurd found not_found_empty
  children := by
    intro parent child
    have nothing : fresh.childrenOf parent = [] := Std.ExtTreeMap.getD_empty
    rw [nothing]
    constructor
    · intro member
      cases member
    · intro isParent
      obtain ⟨_, entry, found, _⟩ := isParent
      exact absurd found not_found_empty
  acyclic := by
    intro txid path
    obtain ⟨_, _, edge⟩ := TransGen.tail'_iff.mp path
    obtain ⟨_, entry, found, _⟩ := edge
    exact absurd found not_found_empty

theorem isParent_of_same {left right : Mempool} (same : sameTransactions left right)
    (parent child : Hash) : left.IsParent parent child ↔ right.IsParent parent child := by
  have half {first second : Mempool} (same : sameTransactions first second)
      (isParent : first.IsParent parent child) : second.IsParent parent child := by
    obtain ⟨held, entry, found, spends⟩ := isParent
    rw [holds_of_same same] at held
    have stored := same child
    rw [found, Option.map_some] at stored
    obtain ⟨other, isOther, sameTx⟩ := Option.map_eq_some_iff.mp stored.symm
    refine ⟨held, other, isOther, ?_⟩
    rw [sources, sameTx]
    exact spends
  exact ⟨half same, half fun txid => (same txid).symm⟩

/-- What the entries count does not matter. -/
theorem Related.congr {pool other : Mempool} (related : pool.Related)
    (same : sameTransactions other pool) (sameParents : other.parents = pool.parents)
    (sameChildren : other.children = pool.children) : other.Related := by
  have parentsOf (txid : Hash) : other.parentsOf txid = pool.parentsOf txid := by
    rw [Mempool.parentsOf, sameParents]
    rfl
  have holds : other.holds = pool.holds := funext (holds_of_same same)
  have stored {child : Hash} {entry : MempoolEntry} (found : other.transactions[child]? = some entry) :
      ∃ held, pool.transactions[child]? = some held ∧ held.tx = entry.tx := by
    have before := same child
    rw [found, Option.map_some] at before
    exact Option.map_eq_some_iff.mp before.symm
  constructor
  · intro child missing
    rw [parentsOf]
    apply related.orphans
    rw [← holds_eq_false_iff, ← holds, holds_eq_false_iff]
    exact missing
  · intro child entry found parent member
    obtain ⟨held, isHeld, sameTx⟩ := stored found
    rw [sources, ← sameTx]
    exact related.known child held isHeld parent (by rwa [← parentsOf])
  · intro child entry found
    obtain ⟨held, isHeld, sameTx⟩ := stored found
    rw [parentsOf, holds, related.parents child held isHeld, sources, sources, sameTx]
  · intro parent child
    rw [isParent_of_same same, ← related.children, childrenOf, sameChildren]
    rfl
  · intro txid path
    exact related.acyclic txid
      (TransGen.mono (fun parent child edge => (isParent_of_same same parent child).mp edge) _ _ path)

/-! ## Removal -/

theorem removeFromRelationships_parentsOf (pool : Mempool) (txid child : Hash) :
    (pool.removeFromRelationships txid).parentsOf child =
      if txid = child then [] else pool.parentsOf child := by
  unfold removeFromRelationships parentsOf
  cases found : pool.parents[txid]? with
  | none =>
      dsimp only
      split
      · rename_i same
        rw [← same, Std.ExtTreeMap.getD_eq_getD_getElem?, found]
        rfl
      · rfl
  | some parentIds =>
      dsimp only
      rw [Std.ExtTreeMap.getD_eq_getD_getElem?, getElem?_erase_eq]
      split
      · rfl
      · exact Std.ExtTreeMap.getD_eq_getD_getElem?.symm

/-- The second pass over the parents' lists finds nothing left to take out. -/
theorem removeFromRelationships_childrenOf (pool : Mempool) (txid parent : Hash) :
    (pool.removeFromRelationships txid).childrenOf parent =
      if txid = parent then [] else (pool.childrenOf parent).filter (· ≠ txid) := by
  have first (other : Hash) :
      ((pool.children.erase txid).map fun _ others => others.filter (· ≠ txid)).getD other [] =
        if txid = other then [] else (pool.childrenOf other).filter (· ≠ txid) := by
    rw [Std.ExtTreeMap.getD_eq_getD_getElem?, Std.ExtTreeMap.getElem?_map, getElem?_erase_eq]
    split
    · rfl
    · rw [childrenOf, Std.ExtTreeMap.getD_eq_getD_getElem?]
      cases pool.children[other]? with
      | none => rfl
      | some others => rfl
  unfold removeFromRelationships
  cases pool.parents[txid]? with
  | none => exact first parent
  | some parentIds =>
      refine List.foldlRecOn (motive := fun reached : RelationMap => ∀ other : Hash,
        reached.getD other [] = if txid = other then [] else (pool.childrenOf other).filter (· ≠ txid))
        parentIds _ first ?_ parent
      intro reached holdsSoFar parentId _ other
      cases found : reached[parentId]? with
      | none => exact holdsSoFar other
      | some others =>
          dsimp only
          have before := holdsSoFar parentId
          rw [Std.ExtTreeMap.getD_eq_getD_getElem?, found, Option.getD_some] at before
          rw [getD_insert_eq]
          split
          · rename_i same
            rw [← holdsSoFar other, ← same, Std.ExtTreeMap.getD_eq_getD_getElem?, found,
              Option.getD_some, before]
            split
            · rfl
            · rw [List.filter_filter]
              simp
          · exact holdsSoFar other

theorem removeTransaction_relations {pool : Mempool} {txid : Hash} {entry : MempoolEntry}
    (found : pool.transactions[txid]? = some entry) (other : Hash) :
    (pool.removeTransaction txid).2.parentsOf other =
        (if txid = other then [] else pool.parentsOf other) ∧
      (pool.removeTransaction txid).2.childrenOf other =
        if txid = other then [] else (pool.childrenOf other).filter (· ≠ txid) := by
  rw [removeTransaction, found]
  exact ⟨removeFromRelationships_parentsOf _ txid other,
    removeFromRelationships_childrenOf _ txid other⟩

theorem removeTransaction_holds (pool : Mempool) (txid other : Hash) :
    (pool.removeTransaction txid).2.holds other = (pool.holds other && txid ≠ other) := by
  rw [holds, holds, Std.ExtTreeMap.contains_eq_isSome_getElem?,
    Std.ExtTreeMap.contains_eq_isSome_getElem?, removeTransaction_transactions, getElem?_erase_eq]
  by_cases same : txid = other
  · simp [same]
  · simp [same]

theorem removeTransaction_isParent (pool : Mempool) (txid parent child : Hash) :
    (pool.removeTransaction txid).2.IsParent parent child ↔
      pool.IsParent parent child ∧ txid ≠ parent ∧ txid ≠ child := by
  rw [IsParent, IsParent, removeTransaction_holds, removeTransaction_transactions]
  simp only [getElem?_erase_eq]
  by_cases same : txid = child
  · simp [same]
  · simp [same, and_assoc, and_comm]

theorem Related.removeTransaction {pool : Mempool} (related : pool.Related) (txid : Hash) :
    (pool.removeTransaction txid).2.Related := by
  cases found : pool.transactions[txid]? with
  | none => rwa [removeTransaction_missing found]
  | some removed =>
      have relations := removeTransaction_relations found
      have stays {child : Hash} {entry : MempoolEntry}
          (stored : (pool.removeTransaction txid).2.transactions[child]? = some entry) :
          txid ≠ child ∧ pool.transactions[child]? = some entry := by
        rw [removeTransaction_transactions, getElem?_erase_eq] at stored
        split at stored
        · cases stored
        · rename_i different
          exact ⟨different, stored⟩
      have narrower (others : List Hash) : others.filter (pool.removeTransaction txid).2.holds =
          (others.filter pool.holds).filter fun other => txid ≠ other := by
        rw [List.filter_filter]
        apply List.filter_congr
        intro other _
        rw [removeTransaction_holds, Bool.and_comm]
      constructor
      · intro child missing
        rw [(relations child).1]
        split
        · rfl
        · rename_i different
          apply related.orphans
          rw [removeTransaction_transactions, getElem?_erase_eq, if_neg different] at missing
          exact missing
      · intro child entry stored parent member
        obtain ⟨different, before⟩ := stays stored
        rw [(relations child).1, if_neg different] at member
        exact related.known child entry before parent member
      · intro child entry stored
        obtain ⟨different, before⟩ := stays stored
        rw [(relations child).1, if_neg different, narrower, narrower,
          related.parents child entry before]
      · intro parent child
        rw [(relations parent).2, removeTransaction_isParent, ← related.children]
        by_cases same : txid = parent
        · simp [same]
        · rw [if_neg same, List.mem_filter, decide_eq_true_eq]
          constructor
          · intro member
            exact ⟨member.1, same, Ne.symm member.2⟩
          · intro member
            exact ⟨member.1, Ne.symm member.2.2⟩
      · intro other path
        exact related.acyclic other (TransGen.mono (fun parent child edge =>
          ((removeTransaction_isParent pool txid parent child).mp edge).1) _ _ path)

end Mempool

end Parthenon
