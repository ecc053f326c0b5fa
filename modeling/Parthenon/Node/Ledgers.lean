import Parthenon.Library.Runs
import Parthenon.Node.NodeLaws
import Parthenon.Validation.BlockAgreement

namespace Parthenon

open Library Crypto Primitives Consensus Chainstate Validation Storage

/-! # The two ledgers of the node

Every block goes through the chain state of the miner and through the chain.  The
two agree after any calls: the second one to see a block follows the first.
-/

/-- The chain state and the chain are at the same block. -/
structure InStep (state : ChainState) (chain : Chain) : Prop where
  height : chain.height = state.height.toUInt32
  tipHash : chain.tipHash = state.tipHash
  totalSupply : ∀ asset, chain.getTotalSupply asset = state.getTotalSupply asset

namespace InStep

theorem fresh : InStep .fresh .fresh where
  height := rfl
  tipHash := rfl
  totalSupply _ := rfl

theorem of_kept {state : ChainState} {chain after : Chain} (inStep : InStep state chain)
    (height : after.height = chain.height) (tipHash : after.tipHash = chain.tipHash)
    (totalSupply : ∀ asset, after.getTotalSupply asset = chain.getTotalSupply asset) :
    InStep state after where
  height := height.trans inStep.height
  tipHash := tipHash.trans inStep.tipHash
  totalSupply asset := (totalSupply asset).trans (inStep.totalSupply asset)

/-- A block that both accept moves both. -/
theorem connect {state : ChainState} {chain after : Chain} {block : Block} {undo left : BlockUndo}
    (inStep : InStep state chain) (valid : state.validateBlock block = some true)
    (connected : chain.connectBlock block undo = (true, after, left)) :
    (state.applyBlock block).1 = some true ∧ InStep (state.applyBlock block).2 after := by
  rcases state.applyBlock_cases block with
    ⟨notValid, _⟩ | ⟨_, coinbase, rest, listed, isCoinbase, applied⟩
  · exact absurd valid notValid
  · rcases chain.connectBlock_cases block undo with
      ⟨_, _, _, result⟩ | ⟨_, _, _, _, _, _, _, _, _, _, _, _, result⟩ |
      ⟨_, first, others, _, _, reached, sameList, _, shape, result⟩
    · rw [result] at connected
      cases connected
    · rw [result] at connected
      cases connected
    · rw [result] at connected
      cases connected
      rw [listed] at sameList
      cases sameList
      obtain ⟨_, height, tipHash, _, supply⟩ := shape
      rw [applied]
      refine ⟨rfl, ?_, tipHash, ?_⟩
      · rw [height, inStep.height]
        exact (UInt64.toUInt32_add state.height 1).symm
      · intro asset
        rw [supply, Chain.updateSupply_congr inStep.totalSupply, Chain.updateSupply, isCoinbase]
        rfl

end InStep

namespace Node

variable {db : LevelDB}

theorem step_inStep {secp : Secp256k1} (documented : db.Documented) {node after : Node db}
    {call : NodeCall} (inStep : InStep node.chainState node.chain)
    (next : node.Step secp call after) : InStep after.chainState after.chain := by
  cases call with
  | start utxoOpens networkStarts =>
      obtain ⟨fuel, result, done⟩ := next
      obtain ⟨_, chainState, _, _, height, tipHash, _, supply⟩ := start_refused documented done
      rw [chainState]
      exact inStep.of_kept height tipHash supply
  | submitTransaction tx time =>
      obtain ⟨fuel, result, done⟩ := next
      obtain ⟨chainState, chain⟩ := submitTransaction_keeps done
      rw [chainState, chain]
      exact inStep
  | validateAndApplyBlock block =>
      rw [Step] at next
      subst next
      rcases node.validateAndApplyBlock_cases secp block with
        ⟨outcome, chain, _, result, height, tipHash, supply⟩ |
        ⟨chain, undo, valid, _, connected, result⟩
      · rw [result]
        exact inStep.of_kept height tipHash supply
      · rw [result]
        exact (inStep.connect valid connected).2

/-- A call moves the ledgers by one block at most. -/
theorem step_height {secp : Secp256k1} (documented : db.Documented) {node after : Node db}
    {call : NodeCall} (next : node.Step secp call after) :
    after.chainState.height.toNat ≤ node.chainState.height.toNat + 1 := by
  cases call with
  | start utxoOpens networkStarts =>
      obtain ⟨fuel, result, done⟩ := next
      obtain ⟨_, chainState, _⟩ := start_refused documented done
      rw [chainState]
      exact Nat.le_succ _
  | submitTransaction tx time =>
      obtain ⟨fuel, result, done⟩ := next
      rw [(submitTransaction_keeps done).1]
      exact Nat.le_succ _
  | validateAndApplyBlock block =>
      rw [Step] at next
      subst next
      rcases node.validateAndApplyBlock_cases secp block with
        ⟨outcome, chain, _, result, _⟩ | ⟨chain, undo, valid, _, _, result⟩
      · rw [result]
        exact Nat.le_succ _
      · rw [result]
        rcases node.chainState.applyBlock_cases block with
          ⟨notValid, _⟩ | ⟨_, _, _, _, _, applied⟩
        · exact absurd valid notValid
        · simp only [afterBlock, applied, UInt64.toNat_add]
          exact Nat.mod_le _ _

/-! A start on an empty disk and a first block. -/
namespace FirstBlock

open BlockValidator.DoubleSpend (library funding)

def empty : Node .memory := construct .regtest ([] : List (Bytes × Bytes))

def outcome : Option (Option Bool × Node .memory) := empty.start 1 true true

def started : Node .memory := (outcome.map Prod.snd).getD empty

def after : Node .memory := (started.validateAndApplyBlock library funding).2

theorem start_refuses : outcome.map Prod.fst = some (some false) := by decide +kernel

theorem start_step : Step library empty (.start true true) started :=
  ⟨1, some false, returned start_refuses empty⟩

theorem block_step : Step library started (.validateAndApplyBlock funding) after := by
  rw [Step, after]

end FirstBlock

end Node

end Parthenon
