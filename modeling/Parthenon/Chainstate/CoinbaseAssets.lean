import Parthenon.Library.Runs
import Parthenon.Consensus.Issuance
import Parthenon.Primitives.WireCanonical
import Parthenon.Chainstate.ChainState

namespace Parthenon.Chainstate

open Parthenon.Library Parthenon.Crypto Parthenon.Primitives Parthenon.Consensus

/-! # The assets a coinbase pays

A chain state keeps a supply for the three native assets and for no other.  An
output of another asset passes the amount and the reward checks only with amount
zero, and then the lookup of its supply throws.
-/

namespace ChainState

/-- `Reset` of a chain state. -/
def reset (state : ChainState) : ChainState where
  height := 0
  tipHash := zeroHash
  totalSupply := ((state.totalSupply.insert .talanton 0).insert .drachma 0).insert .obolos 0

/-- The calls that change a chain state. -/
inductive Call
  | applyBlock (block : Block)
  | reset

/-- The state a call leaves, an exception leaving it as it was. -/
def after (state : ChainState) : Call → ChainState
  | .applyBlock block => (state.applyBlock block).2
  | .reset => state.reset

/-- The assets with a supply are the native ones. -/
def Tracked (state : ChainState) : Prop :=
  ∀ asset, state.totalSupply[asset]?.isSome = true ↔ asset ∈ AssetID.native

theorem isSome_native (supply : AmountMap) (asset : AssetID) :
    (((supply.insert .talanton 0).insert .drachma 0).insert .obolos 0)[asset]?.isSome = true ↔
      asset ∈ AssetID.native ∨ supply[asset]?.isSome = true := by
  rw [getElem?_insert_eq, getElem?_insert_eq, getElem?_insert_eq, AssetID.native]
  simp only [List.mem_cons, List.not_mem_nil, or_false]
  split
  · rename_i same
    simp [← same]
  · rename_i obolos
    split
    · rename_i same
      simp [← same]
    · rename_i drachma
      split
      · rename_i same
        simp [← same]
      · rename_i talanton
        simp [Ne.symm obolos, Ne.symm drachma, Ne.symm talanton]

theorem fresh_tracked : fresh.Tracked := by
  intro asset
  have absent : ¬ (∅ : AmountMap)[asset]?.isSome = true := by simp
  exact (isSome_native ∅ asset).trans (or_iff_left absent)

theorem Tracked.reset {state : ChainState} (tracked : state.Tracked) : state.reset.Tracked := by
  intro asset
  exact (isSome_native state.totalSupply asset).trans
    ⟨fun either => either.elim id (tracked asset).mp, .inl⟩

section Outputs

variable {blockHeight : UInt64} {supply : AmountMap}

theorem validateOutputs_append (front back : List (AssetID × UInt64)) :
    validateOutputs blockHeight supply (front ++ back) =
      if validateOutputs blockHeight supply front = some true then
        validateOutputs blockHeight supply back
      else validateOutputs blockHeight supply front := by
  induction front with
  | nil => rfl
  | cons entry rest ih =>
      obtain ⟨asset, amount⟩ := entry
      rw [List.cons_append, validateOutputs, validateOutputs]
      split
      · rfl
      · split
        · rfl
        · split
          · rfl
          · split
            · rfl
            · exact ih

/-- What the loop asks of an output of a tracked asset. -/
def Payable (blockHeight : UInt64) (supply : AmountMap) (asset : AssetID) (amount : UInt64) : Prop :=
  amount ≤ Issuance.getBlockReward blockHeight asset ∧
    (supply.getD asset 0).toNat + amount.toNat ≤ (AssetSupply.getMaxSupply asset).toNat

/-- The two supply checks compare the exact sum with the cap. -/
theorem supply_checks_iff (current amount cap : UInt64) :
    (¬ current + amount < current ∧ ¬ current + amount > cap) ↔
      current.toNat + amount.toNat ≤ cap.toNat := by
  have first := current.toNat_lt
  have second := amount.toNat_lt
  have capSmall := cap.toNat_lt
  rw [GT.gt, UInt64.lt_iff_toNat_lt, UInt64.lt_iff_toNat_lt, UInt64.toNat_add]
  by_cases fits : current.toNat + amount.toNat < 2 ^ 64
  · rw [Nat.mod_eq_of_lt fits]
    omega
  · omega

theorem validateOutputs_cons (blockHeight : UInt64) {asset : AssetID} (amount : UInt64)
    (found : supply[asset]?.isSome = true) (rest : List (AssetID × UInt64)) :
    (Payable blockHeight supply asset amount ∧
      validateOutputs blockHeight supply ((asset, amount) :: rest) =
        validateOutputs blockHeight supply rest) ∨
    (¬ Payable blockHeight supply asset amount ∧
      validateOutputs blockHeight supply ((asset, amount) :: rest) = some false) := by
  obtain ⟨current, isCurrent⟩ := Option.isSome_iff_exists.mp found
  have value : supply.getD asset 0 = current := by
    rw [Std.ExtTreeMap.getD_eq_getD_getElem?, isCurrent, Option.getD_some]
  have checks := supply_checks_iff current amount (AssetSupply.getMaxSupply asset)
  rw [validateOutputs, Payable, ← Issuance.isValidBlockReward_iff, isCurrent, value, ← checks]
  by_cases allowed : Issuance.isValidBlockReward blockHeight asset amount = true
  · rw [if_neg (by rw [allowed]; decide)]
    by_cases wraps : current + amount < current
    · exact .inr ⟨fun payable => payable.2.1 wraps, if_pos wraps⟩
    · by_cases exceeds : current + amount > AssetSupply.getMaxSupply asset
      · refine .inr ⟨fun payable => payable.2.2 exceeds, ?_⟩
        dsimp only
        rw [if_neg wraps, if_pos exceeds]
      · refine .inl ⟨⟨allowed, wraps, exceeds⟩, ?_⟩
        dsimp only
        rw [if_neg wraps, if_neg exceeds]
  · refine .inr ⟨fun payable => allowed payable.1, ?_⟩
    rw [if_pos (by rw [Bool.eq_false_of_not_eq_true allowed]; rfl)]

/-- Outputs of tracked assets are answered, with true when all of them are payable. -/
theorem validateOutputs_tracked (blockHeight : UInt64) {entries : List (AssetID × UInt64)}
    (found : ∀ entry ∈ entries, supply[entry.1]?.isSome = true) :
    ((∀ entry ∈ entries, Payable blockHeight supply entry.1 entry.2) ∧
      validateOutputs blockHeight supply entries = some true) ∨
    (¬ (∀ entry ∈ entries, Payable blockHeight supply entry.1 entry.2) ∧
      validateOutputs blockHeight supply entries = some false) := by
  induction entries with
  | nil => exact .inl ⟨nofun, rfl⟩
  | cons entry rest ih =>
      obtain ⟨here, later⟩ := List.forall_mem_cons.mp found
      rw [List.forall_mem_cons]
      rcases validateOutputs_cons blockHeight entry.2 here rest with
        ⟨payable, same⟩ | ⟨unpayable, refused⟩
      · rw [same]
        exact (ih later).imp (fun both => ⟨⟨payable, both.1⟩, both.2⟩)
          fun both => ⟨fun all => both.1 all.2, both.2⟩
      · exact .inr ⟨fun all => unpayable all.1, refused⟩

/-- Outputs without a supply are never answered with true. -/
theorem validateOutputs_untracked {entries : List (AssetID × UInt64)}
    (absent : ∀ entry ∈ entries, supply[entry.1]? = none)
    (scheduled : ∀ entry ∈ entries, entry.2 ≤ Issuance.getBlockReward blockHeight entry.1) :
    validateOutputs blockHeight supply entries = if entries = [] then some true else none := by
  cases entries with
  | nil => rfl
  | cons entry rest =>
      have allowed := (Issuance.isValidBlockReward_iff _ _ _).mpr (scheduled entry List.mem_cons_self)
      rw [if_neg (List.cons_ne_nil entry rest), validateOutputs, allowed,
        absent entry List.mem_cons_self]
      rfl

theorem validateOutputs_found {entries : List (AssetID × UInt64)}
    (passed : validateOutputs blockHeight supply entries = some true) :
    ∀ entry ∈ entries, supply[entry.1]?.isSome = true := by
  induction entries with
  | nil => exact nofun
  | cons entry rest ih =>
      rw [validateOutputs] at passed
      split at passed
      · cases passed
      · split at passed
        · cases passed
        · rename_i current found
          split at passed
          · cases passed
          · split at passed
            · cases passed
            · refine List.forall_mem_cons.mpr ⟨?_, ih passed⟩
              rw [found]
              rfl

end Outputs

theorem Tracked.after {state : ChainState} (tracked : state.Tracked) (call : Call) :
    (state.after call).Tracked := by
  cases call with
  | reset => exact tracked.reset
  | applyBlock block =>
      rw [ChainState.after]
      rcases state.applyBlock_cases block with ⟨_, same⟩ | ⟨valid, coinbase, rest, listed, _, applied⟩
      · rw [same]
        exact tracked
      · obtain ⟨_, _, coinbase', rest', listed', passed⟩ := validateBlock_eq_true.mp valid
        obtain ⟨rfl, rfl⟩ := List.cons.inj (listed.symm.trans listed')
        rw [applied]
        intro asset
        dsimp only
        rw [isSome_adjustAll, Bool.or_eq_true]
        refine ⟨fun either => either.elim (tracked asset).mp fun paid => ?_,
          fun native => .inl ((tracked asset).mpr native)⟩
        obtain ⟨amount, found⟩ := Option.isSome_iff_exists.mp paid
        exact (tracked asset).mp (validateOutputs_found passed _
          (Std.ExtTreeMap.mem_toList_iff_getElem?_eq_some.mpr found))

theorem mem_native_iff {asset : AssetID} : asset ∈ AssetID.native ↔ asset.value < 3 := by
  obtain ⟨value⟩ := asset
  simp only [AssetID.native, AssetID.talanton, AssetID.drachma, AssetID.obolos, List.mem_cons,
    AssetID.mk.injEq, List.not_mem_nil, or_false, UInt8.lt_iff_toNat_lt, ← UInt8.toNat_inj]
  change _ ∨ _ ∨ _ ↔ _ < 3
  have zero : (0 : UInt8).toNat = 0 := rfl
  have one : (1 : UInt8).toNat = 1 := rfl
  have two : (2 : UInt8).toNat = 2 := rfl
  omega

theorem getMaxSupply_unknown {asset : AssetID} (unknown : asset ∉ AssetID.native) :
    AssetSupply.getMaxSupply asset = 0 := by
  simp only [AssetID.native, List.mem_cons, List.not_mem_nil, or_false, not_or] at unknown
  rw [AssetSupply.getMaxSupply, if_neg unknown.1, if_neg unknown.2.1, if_neg unknown.2.2]

/-- A valid output of another asset has amount zero. -/
theorem unknown_amount {output : TxOutput} (valid : output.isValid = true)
    (unknown : output.value.asset ∉ AssetID.native) : output.value.amount = 0 := by
  have within := of_decide_eq_true (Bool.and_eq_true_iff.mp valid).1
  rw [getMaxSupply_unknown unknown] at within
  exact UInt64.le_antisymm within UInt64.zero_le

theorem unknown_entry {coinbase : Transaction}
    (valid : ∀ output ∈ coinbase.outputs, output.isValid = true) {asset : AssetID} {amount : UInt64}
    (found : (getCoinbaseOutputs coinbase)[asset]? = some amount) (unknown : asset ∉ AssetID.native) :
    amount = 0 := by
  have nothing : AmountMap.exactSum asset (coinbase.outputs.map TxOutput.value) = 0 := by
    apply List.sum_eq_zero
    rintro share member
    rw [List.map_map] at member
    obtain ⟨output, listed, rfl⟩ := List.mem_map.mp member
    dsimp only [Function.comp_apply]
    split
    · rename_i same
      rw [unknown_amount (valid output listed) (same ▸ unknown)]
      rfl
    · rfl
  have value := AmountMap.sum_toNat (coinbase.outputs.map TxOutput.value) asset
  rw [nothing, Nat.zero_mod, Std.ExtTreeMap.getD_eq_getD_getElem?] at value
  change (((getCoinbaseOutputs coinbase)[asset]?).getD 0).toNat = 0 at value
  rw [found, Option.getD_some] at value
  exact UInt64.toNat_inj.mp value

/-! ### The entries of a coinbase -/

/-- The sums of a coinbase in the assets that have a supply. -/
def nativeEntries (coinbase : Transaction) : List (AssetID × UInt64) :=
  (getCoinbaseOutputs coinbase).toList.filter fun entry => decide (entry.1 ∈ AssetID.native)

/-- Those in the assets that have none. -/
def otherEntries (coinbase : Transaction) : List (AssetID × UInt64) :=
  (getCoinbaseOutputs coinbase).toList.filter fun entry => !decide (entry.1 ∈ AssetID.native)

theorem mem_nativeEntries {coinbase : Transaction} {entry : AssetID × UInt64} :
    entry ∈ nativeEntries coinbase ↔
      (getCoinbaseOutputs coinbase)[entry.1]? = some entry.2 ∧ entry.1 ∈ AssetID.native := by
  rw [nativeEntries, List.mem_filter, decide_eq_true_iff]
  exact and_congr_left fun _ => Std.ExtTreeMap.mem_toList_iff_getElem?_eq_some

theorem mem_otherEntries {coinbase : Transaction} {entry : AssetID × UInt64} :
    entry ∈ otherEntries coinbase ↔
      (getCoinbaseOutputs coinbase)[entry.1]? = some entry.2 ∧ entry.1 ∉ AssetID.native := by
  rw [otherEntries, List.mem_filter, Bool.not_eq_true', decide_eq_false_iff_not]
  exact and_congr_left fun _ => Std.ExtTreeMap.mem_toList_iff_getElem?_eq_some

/-- The map is ordered by the byte of the asset, so the native assets come first. -/
theorem entries_cut (coinbase : Transaction) :
    nativeEntries coinbase ++ otherEntries coinbase = (getCoinbaseOutputs coinbase).toList := by
  refine filter_append_filter Std.ExtTreeMap.ordered_keys_toList ?_
  intro first second ordered native
  have less : first.1.value < second.1.value := Std.compare_eq_lt.mp ordered
  have below := mem_native_iff.mp (of_decide_eq_true native)
  exact decide_eq_true (mem_native_iff.mpr (UInt8.lt_trans less below))

theorem payable_nativeEntries_iff (blockHeight : UInt64) (totalSupply : AmountMap)
    (coinbase : Transaction) :
    (∀ entry ∈ nativeEntries coinbase, Payable blockHeight totalSupply entry.1 entry.2) ↔
      ∀ asset ∈ AssetID.native, ∀ amount, (getCoinbaseOutputs coinbase)[asset]? = some amount →
        Payable blockHeight totalSupply asset amount := by
  constructor
  · intro all asset native amount found
    exact all (asset, amount) (mem_nativeEntries.mpr ⟨found, native⟩)
  · intro all entry member
    obtain ⟨found, native⟩ := mem_nativeEntries.mp member
    exact all entry.1 native entry.2 found

theorem otherEntries_ne_nil_iff (coinbase : Transaction) :
    otherEntries coinbase ≠ [] ↔ ∃ output ∈ coinbase.outputs, output.value.asset ∉ AssetID.native := by
  rw [← List.isEmpty_eq_false_iff, List.isEmpty_eq_false_iff_exists_mem]
  constructor
  · rintro ⟨entry, member⟩
    obtain ⟨found, unknown⟩ := mem_otherEntries.mp member
    have paid : (getCoinbaseOutputs coinbase)[entry.1]?.isSome = true := by
      rw [found]
      rfl
    obtain ⟨value, valueListed, same⟩ := (AmountMap.isSome_sum _ _).mp paid
    obtain ⟨output, outputListed, rfl⟩ := List.mem_map.mp valueListed
    exact ⟨output, outputListed, same ▸ unknown⟩
  · rintro ⟨output, outputListed, unknown⟩
    have paid : (getCoinbaseOutputs coinbase)[output.value.asset]?.isSome = true :=
      (AmountMap.isSome_sum _ _).mpr ⟨output.value, List.mem_map_of_mem outputListed, rfl⟩
    obtain ⟨amount, found⟩ := Option.isSome_iff_exists.mp paid
    exact ⟨(output.value.asset, amount), mem_otherEntries.mpr ⟨found, unknown⟩⟩

/-- The natively paid outputs come first in the map, so the loop throws when they are all payable
and another asset follows. -/
theorem validateOutputs_eq_none_iff {state : ChainState} (tracked : state.Tracked)
    (blockHeight : UInt64) {coinbase : Transaction}
    (valid : ∀ output ∈ coinbase.outputs, output.isValid = true) :
    validateOutputs blockHeight state.totalSupply (getCoinbaseOutputs coinbase).toList = none ↔
      (∀ asset ∈ AssetID.native, ∀ amount, (getCoinbaseOutputs coinbase)[asset]? = some amount →
        Payable blockHeight state.totalSupply asset amount) ∧
      ∃ output ∈ coinbase.outputs, output.value.asset ∉ AssetID.native := by
  have frontTracked : ∀ entry ∈ nativeEntries coinbase, state.totalSupply[entry.1]?.isSome = true :=
    fun entry member => (tracked entry.1).mpr (mem_nativeEntries.mp member).2
  have backAbsent : ∀ entry ∈ otherEntries coinbase, state.totalSupply[entry.1]? = none := by
    intro entry member
    rw [← Option.not_isSome_iff_eq_none]
    exact fun found => (mem_otherEntries.mp member).2 ((tracked entry.1).mp found)
  have backZero : ∀ entry ∈ otherEntries coinbase,
      entry.2 ≤ Issuance.getBlockReward blockHeight entry.1 := by
    intro entry member
    obtain ⟨found, unknown⟩ := mem_otherEntries.mp member
    rw [unknown_entry valid found unknown]
    exact UInt64.zero_le
  rw [← payable_nativeEntries_iff, ← otherEntries_ne_nil_iff, ← entries_cut, validateOutputs_append,
    validateOutputs_untracked backAbsent backZero]
  rcases validateOutputs_tracked blockHeight frontTracked with
    ⟨all, answered⟩ | ⟨some_, answered⟩
  · rw [answered, if_pos rfl, and_iff_right all]
    by_cases empty : otherEntries coinbase = []
    · rw [if_pos empty]
      exact iff_of_false nofun (not_not.mpr empty)
    · rw [if_neg empty]
      exact iff_of_true rfl empty
  · rw [answered, if_neg (by decide)]
    exact iff_of_false nofun fun both => some_ both.1

/-- A block whose checks all pass up to the supply of an asset that has none. -/
def LooksUpUnknown (state : ChainState) (block : Block) : Prop :=
  block.isValid = true ∧
    block.header.prevBlockHash = (if state.height = 0 then zeroHash else state.tipHash) ∧
    ∃ coinbase rest, block.transactions = coinbase :: rest ∧
      (∀ asset ∈ AssetID.native, ∀ amount, (getCoinbaseOutputs coinbase)[asset]? = some amount →
        Payable (state.height + 1) state.totalSupply asset amount) ∧
      ∃ output ∈ coinbase.outputs, output.value.asset ∉ AssetID.native

theorem validateBlock_eq_none_iff {state : ChainState} (tracked : state.Tracked) (block : Block) :
    state.validateBlock block = none ↔ state.LooksUpUnknown block := by
  rw [LooksUpUnknown]
  cases valid : block.isValid with
  | false =>
      rw [validateBlock, valid]
      exact iff_of_false (Option.some_ne_none false) fun looks => Bool.false_ne_true looks.1
  | true =>
      obtain ⟨coinbase, rest, listed, isCoinbase, _⟩ := Block.isValid_shape valid
      have outputsValid : ∀ output ∈ coinbase.outputs, output.isValid = true :=
        Transaction.isValid_outputs ((Block.isValid_iff.mp valid).2.1 coinbase
          (listed ▸ List.mem_cons_self))
      have thrown := validateOutputs_eq_none_iff tracked (state.height + 1) outputsValid
      have only : (∃ coinbase' rest', block.transactions = coinbase' :: rest' ∧
          (∀ asset ∈ AssetID.native, ∀ amount, (getCoinbaseOutputs coinbase')[asset]? = some amount →
            Payable (state.height + 1) state.totalSupply asset amount) ∧
          ∃ output ∈ coinbase'.outputs, output.value.asset ∉ AssetID.native) ↔
          validateOutputs (state.height + 1) state.totalSupply (getCoinbaseOutputs coinbase).toList =
            none := by
        rw [thrown, listed]
        constructor
        · rintro ⟨coinbase', rest', same, conditions⟩
          cases same
          exact conditions
        · exact fun conditions => ⟨coinbase, rest, rfl, conditions⟩
      rw [only, validateBlock, valid, listed]
      simp only [Bool.not_true, Bool.false_eq_true, if_false, isCoinbase, true_and]
      by_cases linked :
          block.header.prevBlockHash = (if state.height = 0 then zeroHash else state.tipHash)
      · rw [if_neg (not_not.mpr linked), and_iff_right linked]
        cases validateOutputs (state.height + 1) state.totalSupply
            (getCoinbaseOutputs coinbase).toList with
        | none => exact iff_of_true rfl rfl
        | some allowed =>
            cases allowed with
            | false => exact iff_of_false (Option.some_ne_none false) (Option.some_ne_none false)
            | true =>
                have worked := Option.some_ne_none
                  (Difficulty.checkProofOfWork block.getHash block.header.bits)
                exact iff_of_false worked (Option.some_ne_none true)
      · rw [if_pos linked]
        exact iff_of_false (Option.some_ne_none false) fun both => linked both.1

/-- The coinbase has an output that pays a positive amount of an asset that is not native. -/
def PaysUnknown (block : Block) : Prop :=
  ∃ coinbase rest, block.transactions = coinbase :: rest ∧
    ∃ output ∈ coinbase.outputs, output.value.asset ∉ AssetID.native ∧ 0 < output.value.amount

theorem validateBlock_of_paysUnknown (state : ChainState) {block : Block} (pays : PaysUnknown block) :
    state.validateBlock block = some false := by
  obtain ⟨coinbase, rest, listed, output, outputListed, unknown, positive⟩ := pays
  cases valid : block.isValid with
  | false =>
      rw [validateBlock, valid]
      rfl
  | true =>
      have outputValid := Transaction.isValid_outputs
        ((Block.isValid_iff.mp valid).2.1 coinbase (listed ▸ List.mem_cons_self)) output outputListed
      rw [unknown_amount outputValid unknown] at positive
      exact absurd positive (by decide)

end ChainState

/-- In every state of a run, a block is answered unless it looks up the supply of an asset that
has none, and one that pays a positive amount of such an asset is refused. -/
theorem validateBlock_answers_iff {calls : List ChainState.Call} {state : ChainState}
    (run : Run (fun state call next => next = ChainState.after state call) ChainState.fresh calls state)
    (block : Block) :
    ((state.validateBlock block).isSome = true ↔ ¬ state.LooksUpUnknown block) ∧
      (ChainState.PaysUnknown block → state.validateBlock block = some false) := by
  have tracked : state.Tracked := by
    refine run.invariant ChainState.fresh_tracked ?_
    rintro before call _ tracked rfl
    exact tracked.after call
  refine ⟨?_, state.validateBlock_of_paysUnknown⟩
  rw [← ChainState.validateBlock_eq_none_iff tracked, ← Option.not_isSome_iff_eq_none, not_not]

namespace UnknownAsset

/-- A coinbase with one output of an asset that the enumeration does not name. -/
def coinbase (amount : UInt64) : Transaction :=
  Sample.coinbase
    [{ value := { asset := ⟨7⟩, amount }, pubkeyScript := ⟨[1], ByteVector.one_fits⟩ }]

def block : Block :=
  Sample.block zeroHash
    (.ofNat 32 0x45add08df6ef9cfa1b226fb286faa73a69c16f603d563b849d097f1d5b64fa74) [coinbase 0]

theorem looksUp : ChainState.fresh.LooksUpUnknown block := by
  refine ⟨by decide +kernel, rfl, coinbase 0, [], rfl, ?_, _, List.mem_singleton_self _, by decide⟩
  intro asset native amount found
  have paid := (AmountMap.isSome_sum ((coinbase 0).outputs.map TxOutput.value) asset).mp (by
    rw [show AmountMap.sum _ = ChainState.getCoinbaseOutputs (coinbase 0) from rfl, found]
    rfl)
  obtain ⟨value, listed, rfl⟩ := paid
  cases List.mem_singleton.mp listed
  exact absurd native (by decide)

theorem withinLimits : block.WithinLimits :=
  ⟨⟨Nat.le_refl 1, (by decide : 1 ≤ 1000000)⟩,
    List.forall_mem_singleton.mpr ⟨(by decide : 1 ≤ 100000), (by decide : 1 ≤ 100000)⟩⟩

end UnknownAsset

theorem validateBlock_answers_unknownAsset :
    (ChainState.fresh.validateBlock UnknownAsset.block).isSome = false ∧
      ChainState.fresh.validateBlock (Sample.block zeroHash zeroHash [UnknownAsset.coinbase 1]) =
        some false := by
  have answers := validateBlock_answers_iff (.start : Run _ ChainState.fresh [] ChainState.fresh)
  constructor
  · rw [Bool.eq_false_iff]
    exact fun answered => (answers UnknownAsset.block).1.mp answered UnknownAsset.looksUp
  · exact (answers _).2 ⟨_, [], rfl, _, List.mem_singleton_self _, by decide, by decide⟩

/-- A block whose coinbase pays nothing in an unknown asset arrives over the wire, passes every
check and throws. -/
theorem validateBlock_throws_unknownAsset :
    ¬ ∀ data object, Block.deserialize data = .ok object →
      (ChainState.fresh.validateBlock object.toBlock).isSome = true := by
  intro all
  have answered := all _ _ (Block.deserialize_serialize UnknownAsset.withinLimits)
  have thrown := (ChainState.validateBlock_eq_none_iff ChainState.fresh_tracked UnknownAsset.block).mpr
    UnknownAsset.looksUp
  rw [Block.parsedObject_toBlock, thrown] at answered
  cases answered

end Parthenon.Chainstate
