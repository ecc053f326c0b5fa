import Mathlib.Data.Fintype.Basic
import Parthenon.Mempool.Newcomers

namespace Parthenon

open Library Crypto Primitives Chainstate Relation

/-! # What the ancestors count

An entry counts its fee and its size and what its parents count.  That is what its
ancestors in the pool come to as long as no two parents have an ancestor in common
and no transaction leaves the pool before those that descend from it.
-/

namespace Mempool

open Classical in
/-- The transactions of the pool that the given one descends from. -/
noncomputable def ancestors (pool : Mempool) (txid : Hash) : Finset Hash :=
  pool.transactions.keys.toFinset.filter fun other => TransGen pool.IsParent other txid

noncomputable def family (pool : Mempool) (txid : Hash) : Finset Hash :=
  insert txid (pool.ancestors txid)

def feeAt (pool : Mempool) (txid : Hash) : Nat := (pool.transactions[txid]?.map (·.fee.toNat)).getD 0

def sizeAt (pool : Mempool) (txid : Hash) : Nat := (pool.transactions[txid]?.map (·.size)).getD 0

/-- The totals of an entry are those of its family. -/
structure Exact (pool : Mempool) (txid : Hash) (entry : MempoolEntry) : Prop where
  fee : entry.ancestorFee.toNat = ∑ member ∈ pool.family txid, pool.feeAt member
  size : entry.ancestorSize.toNat = ∑ member ∈ pool.family txid, pool.sizeAt member
  count : entry.ancestorCount.toNat = (pool.ancestors txid).card

def ExactTotals (pool : Mempool) : Prop :=
  ∀ (txid : Hash) entry, pool.transactions[txid]? = some entry → pool.Exact txid entry

/-- The newcomer's parents have nothing in common, and the totals fit. -/
structure AddsUp (pool : Mempool) (txid : Hash) (entry : MempoolEntry) : Prop where
  newcomer : pool.Newcomer txid entry
  separate : (pool.parentsIn entry).Pairwise fun left right =>
    Disjoint (pool.family left) (pool.family right)
  fee : entry.fee.toNat + ((pool.parentsIn entry).map fun parent =>
    ∑ member ∈ pool.family parent, pool.feeAt member).sum < 2 ^ 64
  size : entry.size + ((pool.parentsIn entry).map fun parent =>
    ∑ member ∈ pool.family parent, pool.sizeAt member).sum < 2 ^ 64
  count : ((pool.parentsIn entry).map fun parent => (pool.family parent).card).sum < 2 ^ 32

/-- Nothing stays without what it spends. -/
def LeavesFamilies (pool after : Mempool) : Prop :=
  ∀ parent child, pool.IsParent parent child → after.holds child = true → after.holds parent = true

/-- Only what nothing in the pool spends leaves it, and what enters it adds up.  The
other calls are no part of these runs. -/
def KeepsTotals (pool : Mempool) (call : PoolCall) : Prop :=
  match call with
  | .call (.removeTransaction txid) => ∀ child, ¬ pool.IsParent txid child
  | .call (.addTransaction _ _ _ _) | .call (.replaceTransaction _ _ _ _) =>
      ∀ ready pending, pool.Prepares call ready pending → pool.LeavesFamilies ready ∧
        ∀ txid entry, pending = some (txid, entry) → ready.AddsUp txid entry
  | _ => False

def AccountedStep (pool : Mempool) (call : PoolCall) (after : Mempool) : Prop :=
  pool.PoolStep call after ∧ pool.KeepsTotals call

/-! ## Ancestors -/

theorem holds_of_path {pool : Mempool} {other txid : Hash}
    (path : TransGen pool.IsParent other txid) : pool.holds other = true := by
  obtain ⟨_, edge, _⟩ := TransGen.head'_iff.mp path
  exact edge.1

theorem mem_ancestors {pool : Mempool} {other txid : Hash} :
    other ∈ pool.ancestors txid ↔ TransGen pool.IsParent other txid := by
  classical
  rw [ancestors, Finset.mem_filter, List.mem_toFinset, Std.ExtTreeMap.mem_keys]
  constructor
  · intro member
    exact member.2
  · intro path
    exact ⟨Std.ExtTreeMap.contains_iff_mem.mp (holds_of_path path), path⟩

theorem IsParent.mem {pool : Mempool} {parent child : Hash} {spent : List Hash}
    (isParent : pool.IsParent parent child)
    (known : pool.transactions[child]?.map sources = some spent) : parent ∈ spent := by
  obtain ⟨_, entry, found, spends⟩ := isParent
  rw [found] at known
  cases known
  exact spends

theorem mem_family {pool : Mempool} {other txid : Hash} :
    other ∈ pool.family txid ↔ other = txid ∨ TransGen pool.IsParent other txid := by
  rw [family, Finset.mem_insert, mem_ancestors]

theorem Related.not_own {pool : Mempool} (related : pool.Related) (txid : Hash) :
    txid ∉ pool.ancestors txid := by
  rw [mem_ancestors]
  exact related.acyclic txid

theorem Related.family_card {pool : Mempool} (related : pool.Related) (txid : Hash) :
    (pool.family txid).card = (pool.ancestors txid).card + 1 :=
  Finset.card_insert_of_notMem (related.not_own txid)

theorem holds_of_family {pool : Mempool} {txid other : Hash} (held : pool.holds txid = true)
    (member : other ∈ pool.family txid) : pool.holds other = true := by
  cases mem_family.mp member with
  | inl same => exact same ▸ held
  | inr path => exact holds_of_path path

/-- The totals of an entry are still right where its ancestors and what they weigh
are the same. -/
theorem Exact.transport {pool after : Mempool} {txid : Hash} {entry : MempoolEntry}
    (exact_ : pool.Exact txid entry) (sameAncestors : after.ancestors txid = pool.ancestors txid)
    (sameEntries : ∀ other ∈ pool.family txid,
      after.transactions[other]? = pool.transactions[other]?) : after.Exact txid entry := by
  have sameFamily : after.family txid = pool.family txid := by
    rw [family, family, sameAncestors]
  have fees : ∀ other ∈ pool.family txid, after.feeAt other = pool.feeAt other := by
    intro other member
    rw [feeAt, feeAt, sameEntries other member]
  have sizes : ∀ other ∈ pool.family txid, after.sizeAt other = pool.sizeAt other := by
    intro other member
    rw [sizeAt, sizeAt, sameEntries other member]
  constructor
  · rw [sameFamily, Finset.sum_congr rfl fees]
    exact exact_.fee
  · rw [sameFamily, Finset.sum_congr rfl sizes]
    exact exact_.size
  · rw [sameAncestors]
    exact exact_.count

/-! ## Removal -/

theorem isParent_of_shrinks {pool after : Mempool} (shrinks : pool.Shrinks after)
    (parent child : Hash) : after.IsParent parent child ↔
      pool.IsParent parent child ∧ after.holds parent = true ∧ after.holds child = true := by
  constructor
  · intro isParent
    obtain ⟨held, entry, found, spends⟩ := isParent
    obtain ⟨parentEntry, isStored⟩ := holds_iff.mp held
    exact ⟨⟨holds_iff.mpr ⟨parentEntry, shrinks _ _ isStored⟩, entry, shrinks _ _ found, spends⟩, held,
      holds_iff.mpr ⟨entry, found⟩⟩
  · intro kept
    obtain ⟨⟨_, entry, found, spends⟩, parentHeld, childHeld⟩ := kept
    obtain ⟨childEntry, isStored⟩ := holds_iff.mp childHeld
    have before := shrinks _ _ isStored
    rw [found] at before
    cases before
    exact ⟨parentHeld, entry, isStored, spends⟩

theorem ExactTotals.shrink {pool after : Mempool} (totals : pool.ExactTotals)
    (shrinks : pool.Shrinks after) (leaves : pool.LeavesFamilies after) : after.ExactTotals := by
  intro txid entry found
  have held : after.holds txid = true := holds_iff.mpr ⟨entry, found⟩
  refine (totals txid entry (shrinks txid entry found)).transport ?_ ?_
  · ext other
    rw [mem_ancestors, mem_ancestors]
    exact transGen_restrict (isParent_of_shrinks shrinks) leaves held
  · intro other member
    have stays : after.holds other = true := by
      cases mem_family.mp member with
      | inl same => exact same ▸ held
      | inr path => exact kept_of_transGen leaves path held
    obtain ⟨stored, isStored⟩ := holds_iff.mp stays
    rw [isStored, shrinks other stored isStored]

/-! ## Storing -/

/-- What one parent adds. -/
def countParent (pool : Mempool) (total : MempoolEntry) (parentId : Hash) : MempoolEntry :=
  match pool.transactions[parentId]? with
  | some parent =>
      { total with
        ancestorFee := total.ancestorFee + parent.ancestorFee
        ancestorSize := total.ancestorSize + parent.ancestorSize
        ancestorCount := total.ancestorCount + (parent.ancestorCount + 1) }
  | none => total

theorem withAncestors_eq (pool : Mempool) (txid : Hash) (entry : MempoolEntry) :
    pool.withAncestors txid entry = (pool.parentsOf txid).foldl pool.countParent
      { entry with
        ancestorFee := entry.fee, ancestorSize := UInt64.ofNat entry.size, ancestorCount := 0 } := rfl

/-- Parents add up what they count as long as the sums fit. -/
theorem countParents (pool : Mempool) (parents : List Hash) (fees sizes counts : Hash → Nat)
    (exact_ : ∀ parent ∈ parents, ∃ held, pool.transactions[parent]? = some held ∧
      held.ancestorFee.toNat = fees parent ∧ held.ancestorSize.toNat = sizes parent ∧
        held.ancestorCount.toNat + 1 = counts parent) (total : MempoolEntry)
    (fee : total.ancestorFee.toNat + (parents.map fees).sum < 2 ^ 64)
    (size : total.ancestorSize.toNat + (parents.map sizes).sum < 2 ^ 64)
    (count : total.ancestorCount.toNat + (parents.map counts).sum < 2 ^ 32) :
    (parents.foldl pool.countParent total).ancestorFee.toNat =
        total.ancestorFee.toNat + (parents.map fees).sum ∧
      (parents.foldl pool.countParent total).ancestorSize.toNat =
        total.ancestorSize.toNat + (parents.map sizes).sum ∧
      (parents.foldl pool.countParent total).ancestorCount.toNat =
        total.ancestorCount.toNat + (parents.map counts).sum := by
  induction parents generalizing total with
  | nil => exact ⟨rfl, rfl, rfl⟩
  | cons parent rest ih =>
      obtain ⟨held, found, isFee, isSize, isCount⟩ := exact_ parent List.mem_cons_self
      rw [List.map_cons, List.sum_cons] at fee size count
      have nextFee : (pool.countParent total parent).ancestorFee.toNat =
          total.ancestorFee.toNat + fees parent := by
        rw [countParent, found, ← isFee]
        exact (UInt64.toNat_add _ _).trans (Nat.mod_eq_of_lt (by omega))
      have nextSize : (pool.countParent total parent).ancestorSize.toNat =
          total.ancestorSize.toNat + sizes parent := by
        rw [countParent, found, ← isSize]
        exact (UInt64.toNat_add _ _).trans (Nat.mod_eq_of_lt (by omega))
      have nextCount : (pool.countParent total parent).ancestorCount.toNat =
          total.ancestorCount.toNat + counts parent := by
        have own : (held.ancestorCount + 1).toNat = held.ancestorCount.toNat + 1 :=
          (UInt32.toNat_add _ _).trans (Nat.mod_eq_of_lt (by rw [UInt32.toNat_one]; omega))
        rw [countParent, found, ← isCount, ← own]
        exact (UInt32.toNat_add _ _).trans (Nat.mod_eq_of_lt (by omega))
      obtain ⟨allFees, allSizes, allCounts⟩ := ih
        (fun other member => exact_ other (List.mem_cons_of_mem parent member))
        (pool.countParent total parent) (by omega) (by omega) (by omega)
      rw [List.foldl_cons, allFees, allSizes, allCounts, nextFee, nextSize, nextCount]
      simp only [List.map_cons, List.sum_cons, Nat.add_assoc, and_self]

/-- The update of a transaction without children ends with it. -/
theorem updateAncestorState_childless {fuel : Nat} {pool after : Mempool} {txid : Hash}
    {entry : MempoolEntry} (found : pool.transactions[txid]? = some entry)
    (childless : pool.childrenOf txid = []) (done : updateAncestorState fuel pool txid = some after) :
    after = pool.refresh txid entry (pool.withAncestors txid entry) := by
  cases fuel with
  | zero => cases done
  | succ fuel =>
      rw [updateAncestorState, found] at done
      change (pool.childrenOf txid).foldlM _ _ = _ at done
      rw [childless] at done
      cases done
      rfl

theorem updateAncestorState_isParent {fuel : Nat} {pool after : Mempool} {txid : Hash}
    (done : updateAncestorState fuel pool txid = some after) (parent child : Hash) :
    after.IsParent parent child ↔ pool.IsParent parent child :=
  isParent_of_same (updateAncestorState_sameTransactions done) parent child

section Stored

variable {ready after : Mempool} {txid : Hash} {entry : MempoolEntry} {fuel : Nat}
  (newcomer : ready.Newcomer txid entry)
  (done : updateAncestorState fuel (ready.insertEntry txid entry) txid = some after)
include newcomer done

theorem stored_lookup (related : ready.Related) (other : Hash) : after.transactions[other]? =
    if txid = other then some ((ready.insertEntry txid entry).withAncestors txid entry)
    else ready.transactions[other]? := by
  have found : (ready.insertEntry txid entry).transactions[txid]? = some entry := by
    rw [insertEntry_transactions, getElem?_insert_eq, if_pos rfl]
  have childless : (ready.insertEntry txid entry).childrenOf txid = [] := by
    apply List.eq_nil_iff_forall_not_mem.mpr
    intro child member
    exact newcomer.childless child (((related.insertEntry newcomer).children txid child).mp member)
  rw [updateAncestorState_childless found childless done, refresh, insertEntry_transactions]
  simp only [getElem?_insert_eq]
  split
  · rfl
  · rfl

theorem stored_others (parent child : Hash) (different : child ≠ txid) :
    after.IsParent parent child ↔ ready.IsParent parent child :=
  (updateAncestorState_isParent done parent child).trans (newcomer.others parent child different)

theorem stored_childless (child : Hash) : ¬ after.IsParent txid child := by
  rw [updateAncestorState_isParent done]
  exact newcomer.childless child

/-- The ancestors of a newcomer are the families of its parents. -/
theorem stored_ancestors :
    after.ancestors txid = (ready.parentsIn entry).toFinset.biUnion ready.family := by
  ext other
  rw [mem_ancestors, transGen_new_iff (stored_others newcomer done)
    (stored_childless newcomer done), Finset.mem_biUnion]
  have isParent (parent : Hash) : after.IsParent parent txid ↔ parent ∈ ready.parentsIn entry := by
    rw [updateAncestorState_isParent done, insertEntry_isParent newcomer, if_pos rfl]
  simp only [isParent, mem_family, List.mem_toFinset]

/-- The family of another transaction does not change, nor do the entries of it. -/
theorem stored_family (related : ready.Related) {other : Hash} (held : ready.holds other = true) :
    after.ancestors other = ready.ancestors other ∧ ∀ member ∈ ready.family other,
      txid ≠ member ∧ after.transactions[member]? = ready.transactions[member]? := by
  have apart {member : Hash} (held : ready.holds member = true) : txid ≠ member := by
    intro same
    obtain ⟨entry, found⟩ := holds_iff.mp held
    rw [← same, newcomer.absent] at found
    cases found
  constructor
  · ext member
    rw [mem_ancestors, mem_ancestors]
    exact transGen_extend (stored_others newcomer done) (stored_childless newcomer done)
      (apart held).symm
  · intro member inFamily
    have different := apart (holds_of_family held inFamily)
    exact ⟨different, by rw [stored_lookup newcomer done related, if_neg different]⟩

/-- What the family of a newcomer weighs. -/
theorem stored_sum (related : ready.Related) (separate : (ready.parentsIn entry).Pairwise
      fun left right => Disjoint (ready.family left) (ready.family right))
    (weight before : Hash → Nat) (same : ∀ member, after.transactions[member]? =
      ready.transactions[member]? → weight member = before member) :
    ∑ member ∈ after.family txid, weight member = weight txid +
      ((ready.parentsIn entry).map fun parent => ∑ member ∈ ready.family parent, before member).sum := by
  have kept {parent member : Hash} (listed : parent ∈ ready.parentsIn entry)
      (inFamily : member ∈ ready.family parent) :
      txid ≠ member ∧ after.transactions[member]? = ready.transactions[member]? :=
    (stored_family newcomer done related (List.mem_filter.mp listed).2).2 member inFamily
  have notOwn : txid ∉ (ready.parentsIn entry).toFinset.biUnion ready.family := by
    intro own
    obtain ⟨parent, listed, inFamily⟩ := Finset.mem_biUnion.mp own
    exact (kept (List.mem_toFinset.mp listed) inFamily).1 rfl
  have parents : ((ready.parentsIn entry).map fun parent => ∑ member ∈ ready.family parent, weight member) =
      (ready.parentsIn entry).map fun parent => ∑ member ∈ ready.family parent, before member := by
    apply List.map_congr_left
    intro parent listed
    apply Finset.sum_congr rfl
    intro member inFamily
    exact same member (kept listed inFamily).2
  rw [family, stored_ancestors newcomer done, Finset.sum_insert notOwn, sum_families _ _ separate, parents]

end Stored

theorem withAncestors_fee (pool : Mempool) (txid : Hash) (entry : MempoolEntry) :
    (pool.withAncestors txid entry).fee = entry.fee := by
  rw [withAncestors_eq]
  refine List.foldlRecOn (motive := fun total : MempoolEntry => total.fee = entry.fee) _ _ rfl ?_
  intro total same parentId _
  rw [countParent]
  split
  · exact same
  · exact same

theorem newcomer_exact {ready after : Mempool} {txid : Hash} {entry : MempoolEntry} {fuel : Nat}
    (totals : ready.ExactTotals) (related : ready.Related) (addsUp : ready.AddsUp txid entry)
    (done : updateAncestorState fuel (ready.insertEntry txid entry) txid = some after) :
    after.Exact txid ((ready.insertEntry txid entry).withAncestors txid entry) := by
  have newcomer := addsUp.newcomer
  have parents : (ready.insertEntry txid entry).parentsOf txid = ready.parentsIn entry := by
    rw [(insertEntry_relations ready newcomer.notOwn txid).1, related.orphans txid newcomer.absent,
      if_pos rfl, List.nil_append]
  have counted := countParents (ready.insertEntry txid entry) (ready.parentsIn entry)
    (fun parent => ∑ member ∈ ready.family parent, ready.feeAt member)
    (fun parent => ∑ member ∈ ready.family parent, ready.sizeAt member)
    (fun parent => (ready.family parent).card) (by
      intro parent listed
      obtain ⟨held, found⟩ := holds_iff.mp (List.mem_filter.mp listed).2
      obtain ⟨fee, size, count⟩ := totals parent held found
      refine ⟨held, ?_, fee, size, ?_⟩
      · rw [insertEntry_transactions, getElem?_insert_eq, if_neg (ne_of_absent newcomer.absent found),
          found]
      · rw [count, related.family_card])
    { entry with
      ancestorFee := entry.fee, ancestorSize := UInt64.ofNat entry.size, ancestorCount := 0 }
  have sized : (UInt64.ofNat entry.size).toNat = entry.size :=
    UInt64.toNat_ofNat_of_lt' (Nat.lt_of_le_of_lt (Nat.le_add_right _ _) addsUp.size)
  dsimp only at counted
  rw [sized, UInt32.toNat_zero, Nat.zero_add] at counted
  obtain ⟨fee, size, count⟩ := counted addsUp.fee addsUp.size addsUp.count
  have lookup := stored_lookup newcomer done related txid
  rw [if_pos rfl] at lookup
  have sum (weight before : Hash → Nat) := stored_sum newcomer done related addsUp.separate weight before
  constructor
  · rw [withAncestors_eq, parents, fee, sum after.feeAt ready.feeAt, feeAt, lookup]
    · rw [Option.map_some, Option.getD_some, withAncestors_fee]
    · intro member same
      rw [feeAt, feeAt, same]
  · rw [withAncestors_eq, parents, size, sum after.sizeAt ready.sizeAt, sizeAt, lookup]
    · rw [Option.map_some, Option.getD_some, (withAncestors_keeps _ txid entry).2]
    · intro member same
      rw [sizeAt, sizeAt, same]
  · have cards := sum (fun _ => 1) (fun _ => 1) (fun _ _ => rfl)
    simp only [← Finset.card_eq_sum_ones] at cards
    have own := ((related.insertEntry newcomer).updateAncestorState done).family_card txid
    rw [withAncestors_eq, parents, count]
    omega

theorem ExactTotals.stored {ready after : Mempool} {txid : Hash} {entry : MempoolEntry} {fuel : Nat}
    (totals : ready.ExactTotals) (related : ready.Related) (addsUp : ready.AddsUp txid entry)
    (done : updateAncestorState fuel (ready.insertEntry txid entry) txid = some after) :
    after.ExactTotals := by
  intro other held found
  have lookup := stored_lookup addsUp.newcomer done related
  rw [lookup] at found
  split at found
  · rename_i same
    subst other
    cases found
    exact newcomer_exact totals related addsUp done
  · have family := stored_family addsUp.newcomer done related (holds_iff.mpr ⟨held, found⟩)
    exact (totals other held found).transport family.1 fun member inFamily => (family.2 member inFamily).2

/-! ## Runs -/

theorem AccountedStep.newcomer {pool after : Mempool} {call : PoolCall}
    (next : AccountedStep pool call after) : NewcomerStep pool call after := by
  obtain ⟨taken, keepsTotals⟩ := next
  refine ⟨taken, ?_⟩
  intro ready txid entry prepares
  unfold KeepsTotals at keepsTotals
  split at keepsTotals
  · cases prepares
  · exact ((keepsTotals ready _ prepares).2 txid entry rfl).newcomer
  · exact ((keepsTotals ready _ prepares).2 txid entry rfl).newcomer
  · exact keepsTotals.elim

theorem Prepares.shrinks {pool ready : Mempool} {call : PoolCall}
    {pending : Option (Hash × MempoolEntry)} (prepares : pool.Prepares call ready pending) :
    pool.Shrinks ready :=
  prepares.induction (fun reached txid shrinks => shrinks.trans (removeTransaction_shrinks reached txid))
    (.refl pool)

theorem Prepares.related {pool ready : Mempool} {call : PoolCall}
    {pending : Option (Hash × MempoolEntry)} (prepares : pool.Prepares call ready pending)
    (related : pool.Related) : ready.Related :=
  prepares.induction (fun _ txid reached => reached.removeTransaction txid) related

/-- A call that adds or replaces, up to its end. -/
theorem ExactTotals.finish {pool after : Mempool} {call : PoolCall} {fuel : Nat} {result : Bool}
    {outcome : Option (Mempool × Option (Hash × MempoolEntry))} (totals : pool.ExactTotals)
    (related : pool.Related)
    (keeps : ∀ ready pending, pool.Prepares call ready pending → pool.LeavesFamilies ready ∧
      ∀ txid entry, pending = some (txid, entry) → ready.AddsUp txid entry)
    (prepared : ∀ ready pending, outcome = some (ready, pending) → pool.Prepares call ready pending)
    (done : storePrepared fuel outcome = some (result, after)) : after.ExactTotals := by
  cases result with
  | false =>
      have prepares := prepared after none (storePrepared_false.mp done)
      exact totals.shrink prepares.shrinks (keeps after none prepares).1
  | true =>
      obtain ⟨ready, txid, entry, isReady, updated⟩ := storePrepared_true done
      have prepares := prepared ready _ isReady
      obtain ⟨leaves, addsUp⟩ := keeps ready _ prepares
      exact (totals.shrink prepares.shrinks leaves).stored (prepares.related related)
        (addsUp txid entry rfl) updated

theorem step_exactTotals {pool after : Mempool} {call : PoolCall} (totals : pool.ExactTotals)
    (related : pool.Related) (next : AccountedStep pool call after) : after.ExactTotals := by
  obtain ⟨taken, keepsTotals⟩ := next
  unfold KeepsTotals at keepsTotals
  split at keepsTotals
  · rename_i txid
    rw [PoolStep, Step] at taken
    rw [taken]
    refine totals.shrink (removeTransaction_shrinks pool txid) ?_
    intro parent child isParent _
    have apart : txid ≠ parent := by
      intro same
      exact keepsTotals child (same ▸ isParent)
    rw [removeTransaction_holds, isParent.1]
    simp [apart]
  · obtain ⟨fuel, result, done⟩ := taken
    exact totals.finish related keepsTotals (fun _ _ prepared => prepared) done
  · obtain ⟨fuel, result, done⟩ := taken
    exact totals.finish related keepsTotals (fun _ _ prepared => prepared) done
  · exact keepsTotals.elim

/-- The first transaction of a pool has no family. -/
theorem first_addition_keepsTotals {tx : CachedTransaction} (utxoSet : UTXOSet) (height time : UInt32)
    (notOwn : tx.getTxID.1 ∉ tx.prevouts.map (·.txid)) (fits : sizeOf tx < 2 ^ 64) :
    fresh.KeepsTotals (.call (.addTransaction tx utxoSet height time)) := by
  intro ready pending prepares
  have nothing (other : Hash) : ready.transactions[other]? = none :=
    absent_of_shrinks prepares.shrinks Std.ExtTreeMap.getElem?_empty
  constructor
  · intro parent child isParent
    obtain ⟨_, entry, found, _⟩ := isParent
    exact absurd found not_found_empty
  · intro txid entry isPending
    rw [isPending] at prepares
    have reached := prepareAddition_cases prepares
    obtain ⟨isOwn, fee, isEntry⟩ := reached.entry_eq
    have parentless : ready.parentsIn entry = [] := by
      rw [parentsIn, List.filter_eq_nil_iff]
      intro source _
      rw [holds_eq_false_iff.mpr (nothing source)]
      exact Bool.false_ne_true
    have sized : entry.size = sizeOf tx := by rw [isEntry, entryFor_size]
    constructor
    · refine ⟨nothing txid, ?_, ?_⟩
      · intro other held found
        rw [nothing] at found
        cases found
      · rw [sources, (reached.proposed.entry txid entry rfl).2.1, isOwn]
        exact notOwn
    · rw [parentless]
      exact .nil
    · rw [parentless]
      exact entry.fee.toNat_lt
    · rw [parentless, sized]
      exact fits
    · rw [parentless, List.map_nil, List.sum_nil]
      decide

/-! A child that spends two outputs of one parent. -/
namespace TwoOutputs

def half : TxOutput := Sample.output 900 ⟨[1], ByteVector.one_fits⟩

def parent : CachedTransaction := .ofTransaction (Sample.spend Tie.firstOutpoint .empty [half, half])

def parentID : Hash := parent.getTxID.1

def child : CachedTransaction :=
  .ofTransaction
    { Sample.spend Tie.firstOutpoint .empty [Sample.output 1000 ⟨[1], ByteVector.one_fits⟩] with
      inputs := [0, 1].map fun index =>
        { prevout := ⟨parentID, index⟩, signatureScript := .empty, sequence := 0xFFFFFFFF } }

def utxoSet : UTXOSet :=
  UTXOSet.addCoin (UTXOSet.addCoin Tie.utxoSet ⟨parentID, 0⟩ { Tie.coin with output := half })
    ⟨parentID, 1⟩ { Tie.coin with output := half }

def added : Option (Bool × Mempool) := fresh.addTransaction 1 parent utxoSet 200 0

def poolOfParent : Mempool := (added.map Prod.snd).getD fresh

def addedBoth : Option (Bool × Mempool) := poolOfParent.addTransaction 1 child utxoSet 200 0

def pool : Mempool := (addedBoth.map Prod.snd).getD fresh

/-- Both are taken, and the child counts its one parent twice. -/
theorem outcome : added.map Prod.fst = some true ∧ addedBoth.map Prod.fst = some true ∧
    (pool.transactions[child.getTxID.1]?.map fun entry =>
      (sources entry, entry.ancestorCount)) = some ([parentID, parentID], 2) ∧
    (pool.transactions[parentID]?.map sources) = some [zeroHash] ∧ pool.holds zeroHash = false := by
  decide +kernel

def calls : List PoolCall :=
  [] ++ [.call (.addTransaction parent utxoSet 200 0)] ++ [.call (.addTransaction child utxoSet 200 0)]

theorem run : Run PoolStep fresh calls pool := by
  have first : fresh.PoolStep (.call (.addTransaction parent utxoSet 200 0)) poolOfParent :=
    ⟨1, true, returned outcome.1 fresh⟩
  have second : poolOfParent.PoolStep (.call (.addTransaction child utxoSet 200 0)) pool :=
    ⟨1, true, returned outcome.2.1 fresh⟩
  exact (Run.start.step first).step second

theorem counted : (pool.transactions[child.getTxID.1]?.map fun entry =>
      (sources entry, entry.ancestorCount)) = some ([parentID, parentID], 2) ∧
    (pool.transactions[parentID]?.map sources) = some [zeroHash] ∧ pool.holds zeroHash = false :=
  outcome.2.2

theorem ancestors_child : pool.ancestors child.getTxID.1 ⊆ {parentID} := by
  obtain ⟨childEntry, parentSources, unknown⟩ := counted
  obtain ⟨entry, found, shown⟩ := Option.map_eq_some_iff.mp childEntry
  have childSources : pool.transactions[child.getTxID.1]?.map sources = some [parentID, parentID] := by
    rw [found, Option.map_some, (Prod.mk.inj shown).1]
  intro other member
  obtain ⟨last, reaches, edge⟩ := TransGen.tail'_iff.mp (mem_ancestors.mp member)
  have isLast : last = parentID := by simpa using edge.mem childSources
  rw [isLast] at reaches
  cases reflTransGen_iff_eq_or_transGen.mp reaches with
  | inl same => exact Finset.mem_singleton.mpr same.symm
  | inr path =>
      obtain ⟨first, _, edge⟩ := TransGen.tail'_iff.mp path
      have isFirst : first = zeroHash := by simpa using edge.mem parentSources
      have held := edge.1
      rw [isFirst, unknown] at held
      cases held

end TwoOutputs

end Mempool

end Parthenon
