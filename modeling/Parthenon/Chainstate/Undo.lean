import Parthenon.Chainstate.ChainLaws

namespace Parthenon.Chainstate

open Parthenon.Library Parthenon.Crypto Parthenon.Primitives Parthenon.Consensus

/-! # Undoing a block

`DisconnectBlock` runs the transactions backwards, so what it leaves at an
outpoint is decided by the first write of the block there: a spend is given back,
a creation is removed, whatever the set held before it.
-/

/-- What undoing `updates` writes at an outpoint, when they were applied to `before`. -/
def undoWrite (before : UTXOSet) (updates : List CoinUpdate) (outpoint : OutPoint) :
    Option (Option Coin) :=
  (firstWrite updates outpoint).map fun written =>
    match written with
    | none => before.getCoin outpoint
    | some _ => none

theorem undoWrite_eq_none {before : UTXOSet} {updates : List CoinUpdate} {outpoint : OutPoint} :
    undoWrite before updates outpoint = none ↔ firstWrite updates outpoint = none := by
  simp [undoWrite]

/-- Undoing two runs of writes: the first run decides wherever it wrote at all. -/
theorem undoWrite_append (before : UTXOSet) (first second : List CoinUpdate) (outpoint : OutPoint) :
    undoWrite before (first ++ second) outpoint =
      (undoWrite before first outpoint).or
        (undoWrite (applyUpdates before first) second outpoint) := by
  rw [undoWrite, undoWrite, undoWrite, firstWrite_append]
  cases wrote : firstWrite first outpoint with
  | some written => rfl
  | none =>
      have untouched : lastWrite first outpoint = none :=
        lastWrite_eq_none.mpr (firstWrite_eq_none.mp wrote)
      have same : UTXOSet.getCoin (applyUpdates before first) outpoint = before.getCoin outpoint := by
        rw [UTXOSet.getCoin, getElem?_applyUpdates, untouched]
        rfl
      rw [same]
      rfl

section Lookups

variable (outpoint : OutPoint)

theorem lastWrite_removals (outpoints : List OutPoint) :
    lastWrite (outpoints.map fun other => ((other, none) : CoinUpdate)) outpoint =
      if outpoint ∈ outpoints then some none else none := by
  induction outpoints with
  | nil => rfl
  | cons other rest ih =>
      rw [List.map_cons, lastWrite, ih]
      by_cases member : outpoint ∈ rest
      · rw [if_pos member, if_pos (List.mem_cons_of_mem _ member)]
        rfl
      · by_cases same : other = outpoint
        · subst same
          simp [member]
        · simp [member, same, Ne.symm same]

theorem undoWrite_removals (before : UTXOSet) (outpoints : List OutPoint) :
    undoWrite before (outpoints.map fun other => (other, none)) outpoint =
      if outpoint ∈ outpoints then some (before.getCoin outpoint) else none := by
  induction outpoints with
  | nil => rfl
  | cons other rest ih =>
      rw [undoWrite] at ih ⊢
      rw [List.map_cons, firstWrite]
      by_cases same : other = outpoint
      · subst same
        simp
      · rw [if_neg same, ih]
        simp [Ne.symm same]

theorem undoWrite_creations (before : UTXOSet) (created : List (OutPoint × Coin)) :
    undoWrite before (created.map fun entry => (entry.1, some entry.2)) outpoint =
      if outpoint ∈ created.map Prod.fst then some none else none := by
  induction created with
  | nil => rfl
  | cons entry rest ih =>
      rw [undoWrite] at ih ⊢
      rw [List.map_cons, firstWrite]
      by_cases same : entry.1 = outpoint
      · subst same
        simp
      · have here : outpoint ∈ (entry :: rest).map Prod.fst ↔ outpoint ∈ rest.map Prod.fst := by
          rw [List.map_cons, List.mem_cons]
          exact ⟨fun member => member.resolve_left (Ne.symm same), .inr⟩
        rw [if_neg same, ih]
        simp only [here]

theorem undoWrite_createUpdates (before : UTXOSet) (tx : Transaction) (height : UInt32)
    (isCoinbase : Bool) :
    undoWrite before (createUpdates tx height isCoinbase) outpoint =
      if outpoint ∈ createdOutpoints tx then some none else none := by
  rw [createUpdates, undoWrite_creations, createdCoins_outpoints]

/-- The inputs of a transaction are written before its outputs. -/
theorem undoWrite_transaction (before : UTXOSet) (tx : Transaction) (height : UInt32) :
    undoWrite before (transactionUpdates height tx) outpoint =
      if outpoint ∈ tx.prevouts then some (before.getCoin outpoint)
      else if outpoint ∈ createdOutpoints tx then some none else none := by
  rw [transactionUpdates, undoWrite_append, spendUpdates, undoWrite_removals, undoWrite_createUpdates]
  split <;> rfl

theorem getCoin_removeOutputs (set : UTXOSet) (tx : Transaction) :
    (set.removeOutputs tx).getCoin outpoint =
      if outpoint ∈ createdOutpoints tx then none else set.getCoin outpoint := by
  rw [UTXOSet.getCoin, UTXOSet.removeOutputs_eq, getElem?_applyUpdates, lastWrite_removals]
  split <;> rfl

theorem lastWrite_restored {before : UTXOSet} {height : UInt32} {outpoints : List OutPoint}
    {coins : List Coin}
    (taken : List.Forall₂ (fun spent coin => before.getCoin spent = some coin ∧
      coin.isSpendable height = true) outpoints coins) :
    lastWrite ((outpoints.zip coins).map fun restored =>
      ((restored.1, some restored.2) : CoinUpdate)) outpoint =
      if outpoint ∈ outpoints then some (before.getCoin outpoint) else none := by
  induction taken with
  | nil => rfl
  | @cons spent coin others otherCoins first _ ih =>
      rw [List.zip_cons_cons, List.map_cons, lastWrite, ih]
      by_cases member : outpoint ∈ others
      · rw [if_pos member, if_pos (List.mem_cons_of_mem _ member)]
        rfl
      · by_cases same : spent = outpoint
        · subst same
          simp [member, first.1]
        · simp [member, same, Ne.symm same]

/-- Restored inputs hold the coins the undo data was taken from. -/
theorem getCoin_restoreInputs {before : UTXOSet} {tx : Transaction} {coins : List Coin}
    {height : UInt32} (taken : Chain.inputCoins before height tx.prevouts = some coins)
    (set : UTXOSet) :
    (set.restoreInputs tx coins).getCoin outpoint =
      if outpoint ∈ tx.prevouts then before.getCoin outpoint else set.getCoin outpoint := by
  rw [UTXOSet.getCoin, UTXOSet.restoreInputs_eq, getElem?_applyUpdates,
    lastWrite_restored outpoint (Chain.inputCoins_eq_some.mp taken)]
  split <;> rfl

end Lookups

namespace Chain

theorem disconnectTransactions_append (first second : List Transaction)
    {firstUndos secondUndos : List (List Coin)} {set middle : UTXOSet}
    (sameLength : first.length = firstUndos.length)
    (undone : disconnectTransactions first firstUndos set = (true, middle)) :
    disconnectTransactions (first ++ second) (firstUndos ++ secondUndos) set =
      disconnectTransactions second secondUndos middle := by
  induction first generalizing firstUndos set with
  | nil =>
      have none : firstUndos = [] := List.eq_nil_of_length_eq_zero sameLength.symm
      subst none
      cases undone
      rfl
  | cons tx rest ih =>
      cases firstUndos with
      | nil => simp at sameLength
      | cons coins undos =>
          simp only [List.length_cons, Nat.add_right_cancel_iff] at sameLength
          simp only [disconnectTransactions, List.cons_append] at undone ⊢
          split at undone
          · cases undone
          · rename_i enough
            rw [if_neg enough]
            exact ih sameLength undone

theorem Connects.length_eq {height : UInt32} {set after : UTXOSet} {txs : List Transaction}
    {undos : List (List Coin)} (connects : Connects height set txs undos after) :
    txs.length = undos.length := by
  induction connects with
  | nil => rfl
  | cons _ _ ih => rw [List.length_cons, List.length_cons, ih]

/-- Running connected transactions backwards from any set undoes their writes there. -/
theorem Connects.undone {height : UInt32} {before after : UTXOSet} {txs : List Transaction}
    {undos : List (List Coin)} (connects : Connects height before txs undos after)
    (ordinary : ∀ tx ∈ txs, tx.isCoinbase = false) (set : UTXOSet) :
    ∃ restored, disconnectTransactions txs.reverse undos.reverse set = (true, restored) ∧
      ∀ outpoint, restored.getCoin outpoint =
        (undoWrite before (txs.flatMap (transactionUpdates height)) outpoint).getD
          (set.getCoin outpoint) := by
  induction connects with
  | nil => exact ⟨set, rfl, fun _ => rfl⟩
  | @cons utxos tx coins rest undos after valid tail ih =>
      obtain ⟨txOrdinary, restOrdinary⟩ := List.forall_mem_cons.mp ordinary
      obtain ⟨middle, undone, lookups⟩ := ih restOrdinary
      obtain ⟨taken, _⟩ := (validateTransaction_eq_some txOrdinary).mp valid
      have counted : coins.length = tx.inputs.length := by
        rw [← inputCoins_length taken, Transaction.prevouts, List.length_map]
      have lengths : rest.reverse.length = undos.reverse.length := by
        rw [List.length_reverse, List.length_reverse, tail.length_eq]
      refine ⟨(middle.removeOutputs tx).restoreInputs tx coins, ?_, ?_⟩
      · rw [List.reverse_cons, List.reverse_cons,
          disconnectTransactions_append rest.reverse [tx] lengths undone, disconnectTransactions,
          if_neg (not_not_intro counted), disconnectTransactions]
      · intro outpoint
        rw [getCoin_restoreInputs outpoint taken, getCoin_removeOutputs, lookups, List.flatMap_cons,
          undoWrite_append, undoWrite_transaction, ← processed_eq]
        split
        · rfl
        · split <;> rfl

theorem updateSupply_undo (totalSupply : AmountMap) (coinbase : Transaction) (asset : AssetID) :
    (updateSupply (updateSupply totalSupply coinbase true) coinbase false).getD asset 0 =
      totalSupply.getD asset 0 := by
  unfold updateSupply
  split
  · rfl
  · simp only [Bool.false_eq_true, if_false, if_true, getD_adjustAll]
    split
    · exact UInt64.add_sub_cancel _ _
    · rfl

theorem undoWrite_block (before : UTXOSet) (coinbase : Transaction) (rest : List Transaction)
    (height : UInt32) (outpoint : OutPoint) :
    undoWrite before (blockUpdates height (coinbase :: rest)) outpoint =
      if outpoint ∈ createdOutpoints coinbase then some none
      else undoWrite (before.addOutputs coinbase height true)
        (rest.flatMap (transactionUpdates height)) outpoint := by
  rw [blockUpdates, undoWrite_append, undoWrite_createUpdates, UTXOSet.addOutputs_eq]
  split <;> rfl

theorem disconnectBlock_refused {chain : Chain} {block : Block}
    (refused : chain.height = 0 ∨ block.getHash ≠ chain.tipHash) (undo : BlockUndo) :
    chain.disconnectBlock block undo = (false, chain) := by
  rw [disconnectBlock]
  rcases refused with atGenesis | notTip
  · rw [if_pos atGenesis]
  · rw [if_pos notTip, ite_self]

/-- Disconnecting the tip with the undo data of its connection, from whatever
the UTXO set has become in between. -/
theorem disconnectBlock_connected {chain current : Chain} {block : Block} {coinbase : Transaction}
    {rest : List Transaction} {undos : List (List Coin)} {utxoSet : UTXOSet}
    (listed : block.transactions = coinbase :: rest)
    (ordinary : ∀ tx ∈ rest, tx.isCoinbase = false)
    (connects : Connects (chain.height + 1) (chain.withCoinbase coinbase) rest undos utxoSet)
    (aboveGenesis : current.height ≠ 0) (tip : block.getHash = current.tipHash) :
    ∃ restored, current.disconnectBlock block ⟨undos⟩ =
        (true,
          { utxoSet := restored
            height := current.height - 1
            tipHash := block.header.prevBlockHash
            blockIndex := current.blockIndex.erase block.getHash
            totalSupply := updateSupply current.totalSupply coinbase false }) ∧
      ∀ outpoint, restored.getCoin outpoint =
        (undoWrite chain.utxoSet (blockUpdates (chain.height + 1) block.transactions) outpoint).getD
          (current.utxoSet.getCoin outpoint) := by
  obtain ⟨middle, undone, lookups⟩ := connects.undone ordinary current.utxoSet
  refine ⟨middle.removeOutputs coinbase, ?_, ?_⟩
  · rw [disconnectBlock, if_neg aboveGenesis, if_neg (not_not_intro tip), listed]
    dsimp only
    rw [undone]
  · intro outpoint
    rw [getCoin_removeOutputs, lookups, listed, undoWrite_block, withCoinbase]
    split <;> rfl

theorem connects_block_updates {chain : Chain} {block : Block} {coinbase : Transaction}
    {rest : List Transaction} {undos : List (List Coin)} {utxoSet : UTXOSet}
    (listed : block.transactions = coinbase :: rest)
    (connects : Connects (chain.height + 1) (chain.withCoinbase coinbase) rest undos utxoSet) :
    utxoSet = applyUpdates chain.utxoSet (blockUpdates (chain.height + 1) block.transactions) := by
  rw [connects.updates, listed, blockUpdates, applyUpdates_append, withCoinbase,
    UTXOSet.addOutputs_eq]

/-- Whatever a coin set inside the connected one has lost, undoing brings back no
coin that was not there before. -/
theorem undo_contained {before set restored : UTXOSet} {updates : List CoinUpdate}
    (contains : UTXOSet.Contains (applyUpdates before updates) set)
    (lookups : ∀ outpoint, restored.getCoin outpoint =
      (undoWrite before updates outpoint).getD (set.getCoin outpoint)) :
    before.Contains restored := by
  intro outpoint coin found
  rw [lookups] at found
  cases wrote : firstWrite updates outpoint with
  | none =>
      rw [undoWrite, wrote] at found
      have kept := contains outpoint coin found
      rwa [UTXOSet.getCoin, getElem?_applyUpdates,
        lastWrite_eq_none.mpr (firstWrite_eq_none.mp wrote)] at kept
  | some written =>
      rw [undoWrite, wrote] at found
      cases written with
      | none => exact found
      | some created => cases found

/-- Each outpoint that the block creates before spending it is absent from the set. -/
def CreatesFresh (set : UTXOSet) (updates : List CoinUpdate) : Prop :=
  ∀ outpoint coin, firstWrite updates outpoint = some (some coin) → set.getCoin outpoint = none

theorem undo_restores_iff (before : UTXOSet) (updates : List CoinUpdate) {restored : UTXOSet}
    (lookups : ∀ outpoint, restored.getCoin outpoint =
      (undoWrite before updates outpoint).getD
        (UTXOSet.getCoin (applyUpdates before updates) outpoint)) :
    restored = before ↔ CreatesFresh before updates := by
  constructor
  · intro same outpoint coin created
    have looked := lookups outpoint
    rw [undoWrite, created, same] at looked
    exact looked
  · intro absent
    apply Std.ExtTreeMap.ext_getElem?
    intro outpoint
    have looked := lookups outpoint
    cases wrote : firstWrite updates outpoint with
    | none =>
        have untouched : lastWrite updates outpoint = none :=
          lastWrite_eq_none.mpr (firstWrite_eq_none.mp wrote)
        have kept : UTXOSet.getCoin (applyUpdates before updates) outpoint =
            before.getCoin outpoint := by
          rw [UTXOSet.getCoin, getElem?_applyUpdates, untouched]
          rfl
        rw [undoWrite, wrote, kept] at looked
        exact looked
    | some written =>
        rw [undoWrite, wrote] at looked
        cases written with
        | none => exact looked
        | some coin =>
            have missing := absent outpoint coin wrote
            rw [UTXOSet.getCoin] at looked missing
            rw [looked, missing]
            rfl

theorem insert_erase_eq_self_iff (index : BlockIndexMap) (hash : Hash) (entry : BlockIndex) :
    (index.insert hash entry).erase hash = index ↔ index[hash]? = none := by
  constructor
  · intro same
    rw [← same, getElem?_erase_eq, if_pos rfl]
  · intro missing
    apply Std.ExtTreeMap.ext_getElem?
    intro other
    rw [getElem?_erase_eq, getElem?_insert_eq]
    split
    · rename_i same
      rw [← same, missing]
    · rfl

/-- The condition under which disconnecting a block undoes connecting it. -/
def Undoable (chain : Chain) (block : Block) : Prop :=
  block.header.prevBlockHash = chain.tipHash ∧ chain.blockIndex[block.getHash]? = none ∧
    chain.height ≠ 0xFFFFFFFF ∧
    CreatesFresh chain.utxoSet (blockUpdates (chain.height + 1) block.transactions)

theorem disconnectBlock_restores_iff {chain after : Chain} {block : Block} {undo : BlockUndo}
    (connected : chain.connectBlock block .empty = (true, after, undo)) :
    ((after.disconnectBlock block undo).1 = true ∧
      SameState (after.disconnectBlock block undo).2 chain) ↔ chain.Undoable block := by
  rcases connectBlock_cases chain block .empty with
    ⟨_, _, _, result⟩ | ⟨_, _, _, _, _, _, _, _, _, _, _, _, result⟩ |
    ⟨checked, coinbase, rest, undos, utxoSet, _, listed, connects, shape, result⟩
  · rw [result] at connected
    cases connected
  · rw [result] at connected
    cases connected
  · rw [result] at connected
    cases connected
    obtain ⟨utxoFinal, heightFinal, tipFinal, indexFinal, supplyFinal⟩ := shape
    have ordinary : ∀ tx ∈ rest, tx.isCoinbase = false := by
      have valid := (Bool.and_eq_true_iff.mp checked).1
      obtain ⟨other, others, sameList, _, ordinary⟩ := Block.isValid_shape valid
      rw [listed] at sameList
      cases sameList
      exact ordinary
    have heightWraps : chain.height + 1 = 0 ↔ chain.height = 0xFFFFFFFF := by
      constructor
      · intro wrapped
        have cancelled := congrArg (· - 1) wrapped
        simp only [UInt32.add_sub_cancel] at cancelled
        exact cancelled
      · rintro same
        rw [same]
        rfl
    by_cases wrapped : chain.height + 1 = 0
    · constructor
      · rintro ⟨disconnected, _⟩
        rw [disconnectBlock, heightFinal, if_pos wrapped] at disconnected
        contradiction
      · rintro ⟨_, _, bounded, _⟩
        exact absurd (heightWraps.mp wrapped) bounded
    · obtain ⟨restored, disconnected, lookups⟩ := disconnectBlock_connected listed ordinary connects
        (by rwa [heightFinal]) tipFinal.symm
      have undoEmpty : (⟨BlockUndo.empty.txUndo ++ undos⟩ : BlockUndo) = ⟨undos⟩ := rfl
      have finalSet : after.utxoSet =
          applyUpdates chain.utxoSet (blockUpdates (chain.height + 1) block.transactions) := by
        rw [utxoFinal, connects_block_updates listed connects]
      rw [finalSet] at lookups
      have restores := undo_restores_iff _ _ lookups
      rw [undoEmpty, disconnected]
      have height : chain.height + 1 - 1 = chain.height := UInt32.add_sub_cancel _ _
      have supply (asset : AssetID) : (updateSupply after.totalSupply coinbase false).getD asset 0 =
          chain.getTotalSupply asset := by
        rw [updateSupply_congr supplyFinal, updateSupply_undo]
        rfl
      unfold SameState Undoable
      dsimp only
      rw [heightFinal, indexFinal, height, insert_erase_eq_self_iff, restores]
      constructor
      · rintro ⟨_, fresh, _, tip, missing, _⟩
        exact ⟨tip, missing, fun same => wrapped (heightWraps.mpr same), fresh⟩
      · rintro ⟨tip, missing, _, fresh⟩
        exact ⟨rfl, fresh, rfl, tip, missing, supply⟩

namespace RepeatedCoinbase

def coinbase : Transaction := Sample.coinbase [Sample.output 5000000000 ⟨[1], ByteVector.one_fits⟩]

def coinbaseID : Hash :=
  .ofNat 32 0x5baeeb32750090cdb800660b662c85ddbf7da5da527a2d2ff2cac7fba3acc60c

def firstHash : Hash :=
  .ofNat 32 0x6feca39ae593921799981b4ca202d291cf3101677ef0512b66511829ba2f74a7

def firstBlock : Block := Sample.block zeroHash coinbaseID [coinbase]

/-- The next block on top, with the same coinbase transaction. -/
def secondBlock : Block := Sample.block firstHash coinbaseID [coinbase]

def first : Bool × Chain × BlockUndo := Chain.fresh.connectBlock firstBlock .empty

def second : Bool × Chain × BlockUndo := first.2.1.connectBlock secondBlock .empty

def undone : Bool × Chain := second.2.1.disconnectBlock secondBlock second.2.2

def coinKept (chain : Chain) : Bool := (chain.utxoSet.getCoin ⟨coinbaseID, 0⟩).isSome

/-- What the two blocks and the undoing do, run once. -/
theorem outcome : first.1 = true ∧ secondBlock.header.prevBlockHash = first.2.1.tipHash ∧
    second.1 = true ∧ undone.1 = true ∧ coinKept first.2.1 = true ∧ coinKept undone.2 = false := by
  decide +kernel

theorem first_connected : first.1 = true := outcome.1

theorem first_result :
    Chain.fresh.connectBlock firstBlock .empty = (true, first.2.1, first.2.2) := by
  have connected := first_connected
  unfold first at connected ⊢
  exact result_of_connected connected

theorem first_linked : secondBlock.header.prevBlockHash = first.2.1.tipHash := outcome.2.1

theorem second_connected : second.1 = true := outcome.2.2.1

theorem second_undone : undone.1 = true := outcome.2.2.2.1

theorem first_coinKept : coinKept first.2.1 = true := outcome.2.2.2.2.1

theorem undone_coinLost : coinKept undone.2 = false := outcome.2.2.2.2.2

end RepeatedCoinbase

/-- Two linked blocks with the same coinbase: disconnecting the second loses the
coin of the first. -/
theorem disconnectBlock_loses_overwritten_coin :
    RepeatedCoinbase.first.1 = true ∧
    RepeatedCoinbase.secondBlock.header.prevBlockHash = RepeatedCoinbase.first.2.1.tipHash ∧
    RepeatedCoinbase.second.1 = true ∧ RepeatedCoinbase.undone.1 = true ∧
    ¬ SameState RepeatedCoinbase.undone.2 RepeatedCoinbase.first.2.1 := by
  refine ⟨RepeatedCoinbase.first_connected, RepeatedCoinbase.first_linked,
    RepeatedCoinbase.second_connected, RepeatedCoinbase.second_undone, ?_⟩
  intro same
  have sets : RepeatedCoinbase.undone.2.utxoSet = RepeatedCoinbase.first.2.1.utxoSet := same.1
  have kept : RepeatedCoinbase.coinKept RepeatedCoinbase.undone.2 = true := by
    rw [RepeatedCoinbase.coinKept, sets]
    exact RepeatedCoinbase.first_coinKept
  rw [RepeatedCoinbase.undone_coinLost] at kept
  cases kept

theorem fresh_undoable : fresh.Undoable RepeatedCoinbase.firstBlock := by
  refine ⟨rfl, ?_, by decide, ?_⟩
  · exact Std.ExtTreeMap.getElem?_empty
  · intro outpoint coin _
    exact Std.ExtTreeMap.getElem?_empty

/-- The first block on a fresh chain is undone. -/
theorem disconnectBlock_restores_fresh :
    (RepeatedCoinbase.first.2.1.disconnectBlock RepeatedCoinbase.firstBlock
      RepeatedCoinbase.first.2.2).1 = true ∧
    SameState (RepeatedCoinbase.first.2.1.disconnectBlock RepeatedCoinbase.firstBlock
      RepeatedCoinbase.first.2.2).2 fresh :=
  (disconnectBlock_restores_iff RepeatedCoinbase.first_result).mpr fresh_undoable

end Chain

end Parthenon.Chainstate
