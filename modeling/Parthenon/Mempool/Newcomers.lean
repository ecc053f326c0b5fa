import Parthenon.Mempool.Relations

namespace Parthenon

open Library Crypto Primitives Chainstate Relation

/-! # Newcomers

A transaction that nothing in the pool spends is stored with the relations it has,
and leaves those of the others as they are.
-/

namespace Mempool

/-- The parents of an entry that are in the pool, once for each input. -/
def parentsIn (pool : Mempool) (entry : MempoolEntry) : List Hash :=
  (sources entry).filter pool.holds

theorem pushRelation_getD (relations : RelationMap) (key txid other : Hash) :
    (pushRelation relations key txid).getD other [] =
      relations.getD other [] ++ if key = other then [txid] else [] := by
  rw [pushRelation, getD_insert_eq]
  split
  · rename_i same
    rw [same]
  · rw [List.append_nil]

/-- Record one input that spends a transaction of the pool. -/
def recordParent (pool : Mempool) (txid parentId : Hash) : Mempool :=
  { pool with
    children := pushRelation pool.children parentId txid
    parents := pushRelation pool.parents txid parentId }

theorem recordParent_parentsOf (pool : Mempool) (txid parentId other : Hash) :
    (pool.recordParent txid parentId).parentsOf other =
      pool.parentsOf other ++ if txid = other then [parentId] else [] :=
  pushRelation_getD pool.parents txid parentId other

theorem recordParent_childrenOf (pool : Mempool) (txid parentId other : Hash) :
    (pool.recordParent txid parentId).childrenOf other =
      pool.childrenOf other ++ if parentId = other then [txid] else [] :=
  pushRelation_getD pool.children parentId txid other

theorem recordParents (prevouts : List OutPoint) (pool : Mempool) (txid other : Hash) :
    (prevouts.foldl (fun pool outpoint => if pool.holds outpoint.txid then
        pool.recordParent txid outpoint.txid else pool) pool).parentsOf other =
      pool.parentsOf other ++
        (if txid = other then (prevouts.map (·.txid)).filter pool.holds else []) ∧
    (prevouts.foldl (fun pool outpoint => if pool.holds outpoint.txid then
        pool.recordParent txid outpoint.txid else pool) pool).childrenOf other =
      pool.childrenOf other ++
        List.replicate (((prevouts.map (·.txid)).filter pool.holds).count other) txid := by
  induction prevouts generalizing pool with
  | nil => simp
  | cons outpoint rest ih =>
      rw [List.foldl_cons, List.map_cons]
      cases held : pool.holds outpoint.txid with
      | false =>
          rw [if_neg Bool.false_ne_true, List.filter_cons_of_neg (by rw [held]; exact Bool.false_ne_true)]
          exact ih pool
      | true =>
          have sameHolds : (pool.recordParent txid outpoint.txid).holds = pool.holds := rfl
          obtain ⟨parents, children⟩ := ih (pool.recordParent txid outpoint.txid)
          rw [recordParent_parentsOf, sameHolds] at parents
          rw [recordParent_childrenOf, sameHolds] at children
          rw [if_pos rfl, List.filter_cons_of_pos held, parents, children, List.append_assoc,
            List.append_assoc]
          constructor
          · split
            · rfl
            · rfl
          · by_cases same : outpoint.txid = other
            · rw [if_pos same, same, List.count_cons_self, List.replicate_succ]
              rfl
            · rw [if_neg same, List.count_cons_of_ne same, List.nil_append]

/-- What storing an entry records. -/
theorem insertEntry_relations (pool : Mempool) {txid : Hash} {entry : MempoolEntry}
    (notOwn : txid ∉ sources entry) (other : Hash) :
    (pool.insertEntry txid entry).parentsOf other =
        pool.parentsOf other ++ (if txid = other then pool.parentsIn entry else []) ∧
      (pool.insertEntry txid entry).childrenOf other =
        pool.childrenOf other ++ List.replicate ((pool.parentsIn entry).count other) txid := by
  let stored : Mempool := { pool with
    transactions := pool.transactions.insert txid entry
    priorityQueue := pool.priorityQueue.insert entry
    totalSize := pool.totalSize + entry.size
    spentOutpoints := entry.tx.prevouts.foldl (fun spent outpoint => spent.insert outpoint txid)
      pool.spentOutpoints }
  have found : stored.transactions[txid]? = some entry := by
    rw [getElem?_insert_eq, if_pos rfl]
  have sameParents : (sources entry).filter stored.holds = pool.parentsIn entry := by
    apply List.filter_congr
    intro source spends
    have apart : txid ≠ source := by
      intro same
      exact notOwn (same ▸ spends)
    rw [holds, holds, Std.ExtTreeMap.contains_eq_isSome_getElem?,
      Std.ExtTreeMap.contains_eq_isSome_getElem?, getElem?_insert_eq, if_neg apart]
  have recorded := recordParents entry.tx.prevouts stored txid other
  rw [← sources, sameParents] at recorded
  rw [insertEntry, updateRelationships, found]
  exact recorded

/-- An entry that nothing in the pool spends, nor itself. -/
structure Newcomer (pool : Mempool) (txid : Hash) (entry : MempoolEntry) : Prop where
  absent : pool.transactions[txid]? = none
  unspent : ∀ (other : Hash) held, pool.transactions[other]? = some held → txid ∉ sources held
  notOwn : txid ∉ sources entry

theorem insertEntry_holds (pool : Mempool) (txid other : Hash) (entry : MempoolEntry) :
    (pool.insertEntry txid entry).holds other = (txid = other || pool.holds other) := by
  rw [holds, holds, Std.ExtTreeMap.contains_eq_isSome_getElem?,
    Std.ExtTreeMap.contains_eq_isSome_getElem?, insertEntry_transactions, getElem?_insert_eq]
  by_cases same : txid = other
  · simp [same]
  · simp [same]

theorem insertEntry_isParent {pool : Mempool} {txid : Hash} {entry : MempoolEntry}
    (newcomer : pool.Newcomer txid entry) (parent child : Hash) :
    (pool.insertEntry txid entry).IsParent parent child ↔
      if txid = child then parent ∈ pool.parentsIn entry else pool.IsParent parent child := by
  rw [IsParent, insertEntry_holds, insertEntry_transactions]
  simp only [getElem?_insert_eq]
  split
  · rename_i same
    rw [parentsIn, List.mem_filter]
    constructor
    · intro isParent
      obtain ⟨held, stored, isEntry, spends⟩ := isParent
      cases isEntry
      have apart : txid ≠ parent := by
        intro own
        exact newcomer.notOwn (own ▸ spends)
      simp only [apart, decide_false, Bool.false_or] at held
      exact ⟨spends, held⟩
    · intro member
      exact ⟨by rw [member.2, Bool.or_true], entry, rfl, member.1⟩
  · constructor
    · intro isParent
      obtain ⟨held, stored, isStored, spends⟩ := isParent
      have apart : txid ≠ parent := by
        intro own
        exact newcomer.unspent child stored isStored (own ▸ spends)
      simp only [apart, decide_false, Bool.false_or] at held
      exact ⟨held, stored, isStored, spends⟩
    · intro isParent
      exact ⟨by rw [isParent.1, Bool.or_true], isParent.2⟩

theorem Newcomer.childless {pool : Mempool} {txid : Hash} {entry : MempoolEntry}
    (newcomer : pool.Newcomer txid entry) (child : Hash) :
    ¬ (pool.insertEntry txid entry).IsParent txid child := by
  intro isParent
  rw [insertEntry_isParent newcomer] at isParent
  split at isParent
  · exact newcomer.notOwn (List.mem_filter.mp isParent).1
  · obtain ⟨_, stored, isStored, spends⟩ := isParent
    exact newcomer.unspent child stored isStored spends

/-- The relations of the others stay. -/
theorem Newcomer.others {pool : Mempool} {txid : Hash} {entry : MempoolEntry}
    (newcomer : pool.Newcomer txid entry) (parent child : Hash) (different : child ≠ txid) :
    (pool.insertEntry txid entry).IsParent parent child ↔ pool.IsParent parent child := by
  rw [insertEntry_isParent newcomer, if_neg (Ne.symm different)]

theorem Related.insertEntry {pool : Mempool} {txid : Hash} {entry : MempoolEntry}
    (related : pool.Related) (newcomer : pool.Newcomer txid entry) :
    (pool.insertEntry txid entry).Related := by
  have relations := insertEntry_relations pool newcomer.notOwn
  have noParents : pool.parentsOf txid = [] := related.orphans txid newcomer.absent
  have widened {others : List Hash} (unnamed : txid ∉ others) :
      others.filter (pool.insertEntry txid entry).holds = others.filter pool.holds := by
    apply List.filter_congr
    intro other member
    have apart : txid ≠ other := by
      intro same
      exact unnamed (same ▸ member)
    simp only [insertEntry_holds, apart, decide_false, Bool.false_or]
  constructor
  · intro child missing
    rw [insertEntry_transactions, getElem?_insert_eq] at missing
    split at missing
    · cases missing
    · rename_i different
      rw [(relations child).1, if_neg different, List.append_nil]
      exact related.orphans child missing
  · intro child stored found parent member
    rw [insertEntry_transactions, getElem?_insert_eq] at found
    rw [(relations child).1] at member
    split at found
    · rename_i same
      cases found
      rw [if_pos same, ← same, noParents] at member
      exact (List.mem_filter.mp member).1
    · rename_i different
      rw [if_neg different, List.append_nil] at member
      exact related.known child stored found parent member
  · intro child stored found
    rw [insertEntry_transactions, getElem?_insert_eq] at found
    rw [(relations child).1]
    split at found
    · rename_i same
      cases found
      have ownUnnamed : txid ∉ pool.parentsIn entry := fun own =>
        newcomer.notOwn (List.mem_filter.mp own).1
      rw [if_pos same, ← same, noParents, List.nil_append, widened newcomer.notOwn, widened ownUnnamed]
      simp only [parentsIn, List.filter_filter, Bool.and_self]
    · rename_i different
      have unspent := newcomer.unspent child stored found
      rw [if_neg different, List.append_nil, widened unspent,
        widened (fun own => unspent (related.known child stored found _ own)),
        related.parents child stored found]
  · intro parent child
    rw [(relations parent).2, insertEntry_isParent newcomer, List.mem_append, List.mem_replicate,
      related.children, ← Nat.pos_iff_ne_zero, List.count_pos_iff]
    split
    · rename_i same
      have absent : ¬ pool.IsParent parent child := by
        intro isParent
        obtain ⟨_, stored, isStored, _⟩ := isParent
        rw [← same, newcomer.absent] at isStored
        cases isStored
      simp [absent, same]
    · rename_i different
      simp [Ne.symm different]
  · intro other path
    by_cases same : other = txid
    · rw [same] at path
      obtain ⟨_, edge, _⟩ := TransGen.head'_iff.mp path
      exact newcomer.childless _ edge
    · exact related.acyclic other ((transGen_extend newcomer.others newcomer.childless same).mp path)

/-! ## Runs of newcomers -/

theorem updateAncestorState_relations {fuel : Nat} {pool after : Mempool} {txid : Hash}
    (done : updateAncestorState fuel pool txid = some after) :
    after.parents = pool.parents ∧ after.children = pool.children :=
  updateAncestorState_induction (motive := fun reached =>
    reached.parents = pool.parents ∧ reached.children = pool.children)
    (fun _ _ _ _ same => same) ⟨rfl, rfl⟩ done

theorem Related.updateAncestorState {fuel : Nat} {pool after : Mempool} {txid : Hash}
    (related : pool.Related) (done : updateAncestorState fuel pool txid = some after) :
    after.Related := by
  obtain ⟨parents, children⟩ := updateAncestorState_relations done
  exact related.congr (updateAncestorState_sameTransactions done) parents children

/-- Whatever the call stores is a newcomer. -/
def Welcomes (pool : Mempool) (call : PoolCall) : Prop :=
  ∀ ready txid entry, pool.Prepares call ready (some (txid, entry)) → ready.Newcomer txid entry

def NewcomerStep (pool : Mempool) (call : PoolCall) (after : Mempool) : Prop :=
  pool.PoolStep call after ∧ pool.Welcomes call

theorem NewcomerStep.freshID {pool after : Mempool} {call : PoolCall}
    (next : NewcomerStep pool call after) : FreshIDStep pool call after := by
  obtain ⟨taken, welcomes⟩ := next
  refine ⟨taken, ?_⟩
  unfold StoresNewID
  split
  · rename_i tx utxoSet height time
    intro accepted
    obtain ⟨ready, ⟨txid, entry⟩, prepared⟩ := accepted
    have newcomer := welcomes ready txid entry prepared
    cases prepareReplacement_cases prepared with
    | stored someConflict fee size signalled valid pays =>
        have absent := newcomer.absent
        rw [removeTransactions_lookup] at absent
        by_cases replaced : tx.getTxID.1 ∈ pool.conflicts tx
        · exact .inr replaced
        · rw [if_neg replaced] at absent
          exact .inl absent
  · trivial

theorem step_related {pool after : Mempool} {call : PoolCall} (related : pool.Related)
    (next : NewcomerStep pool call after) : after.Related := by
  obtain ⟨taken, welcomes⟩ := next
  exact step_induction (fun _ txid reached => reached.removeTransaction txid) related
    (fun ready txid entry prepares reached => reached.insertEntry (welcomes ready txid entry prepares))
    (fun _ _ _ _ reached done => reached.updateAncestorState done)
    (fun _ => related.congr (fun _ => rfl) rfl rfl) (fresh_related.congr (fun _ => rfl) rfl rfl) taken

/-- The queue, the names and the relations of a pool that only newcomers have entered. -/
theorem newcomer_run {calls : List PoolCall} {pool : Mempool}
    (run : Run NewcomerStep fresh calls pool) : pool.Linked ∧ pool.Related := by
  refine Run.invariant (motive := fun reached => reached.Linked ∧ reached.Related)
    ⟨.of_empty rfl rfl, fresh_related⟩ ?_ run
  intro reached call after kept next
  exact ⟨step_linked kept.1 next.freshID, step_related kept.2 next⟩

end Mempool

end Parthenon
