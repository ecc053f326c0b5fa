import Parthenon.Chainstate.ChainLaws

namespace Parthenon.Chainstate

open Parthenon.Library Parthenon.Crypto Parthenon.Primitives Parthenon.Consensus

/-! # The chain state of the miner

`ChainState` follows the chain by its coinbases alone: the height, the tip and
the supplies, with no set of coins.
-/

structure ChainState where
  height : UInt64
  tipHash : Hash
  totalSupply : AmountMap

namespace ChainState

def fresh : ChainState := { height := 0, tipHash := zeroHash, totalSupply := initialSupply }

def getTotalSupply (state : ChainState) (asset : AssetID) : UInt64 := state.totalSupply.getD asset 0

def getCoinbaseOutputs (coinbase : Transaction) : AmountMap :=
  AmountMap.sum (coinbase.outputs.map TxOutput.value)

/-- The output loop of `ValidateBlock`.  `none` is the exception of `at` on an
asset that has no supply. -/
def validateOutputs (blockHeight : UInt64) (totalSupply : AmountMap) :
    List (AssetID × UInt64) → Option Bool
  | [] => some true
  | (asset, amount) :: rest =>
      if !Issuance.isValidBlockReward blockHeight asset amount then some false
      else
        match totalSupply[asset]? with
        | none => none
        | some currentSupply =>
            if currentSupply + amount < currentSupply then some false
            else if currentSupply + amount > AssetSupply.getMaxSupply asset then some false
            else validateOutputs blockHeight totalSupply rest

/-- `none` is an exception. -/
def validateBlock (state : ChainState) (block : Block) : Option Bool :=
  if !block.isValid then some false
  else
    match block.transactions with
    | [] => some false
    | coinbase :: _ =>
        if !coinbase.isCoinbase then some false
        else if block.header.prevBlockHash ≠
            (if state.height = 0 then zeroHash else state.tipHash) then some false
        else
          match validateOutputs (state.height + 1) state.totalSupply
              (getCoinbaseOutputs coinbase).toList with
          | none => none
          | some false => some false
          | some true => some (Difficulty.checkProofOfWork block.getHash block.header.bits)

/-- Whether the block was applied, `none` being an exception, with the state the
call leaves. -/
def applyBlock (state : ChainState) (block : Block) : Option Bool × ChainState :=
  match state.validateBlock block, block.transactions with
  | some true, coinbase :: _ =>
      (some true,
        { height := state.height + 1
          tipHash := block.getHash
          totalSupply := adjustAll (· + ·) 0 state.totalSupply (getCoinbaseOutputs coinbase) })
  | outcome, _ => (outcome, state)

/-- A valid block follows the tip, and its coinbase pays what the supplies allow. -/
theorem validateBlock_eq_true {state : ChainState} {block : Block} :
    state.validateBlock block = some true ↔ block.isValid = true ∧
      block.header.prevBlockHash = (if state.height = 0 then zeroHash else state.tipHash) ∧
      ∃ coinbase rest, block.transactions = coinbase :: rest ∧
        validateOutputs (state.height + 1) state.totalSupply (getCoinbaseOutputs coinbase).toList =
          some true := by
  cases valid : block.isValid with
  | false => simp [validateBlock, valid]
  | true =>
      obtain ⟨coinbase, rest, listed, isCoinbase, _⟩ := Block.isValid_shape valid
      have work : Difficulty.checkProofOfWork block.getHash block.header.bits = true :=
        (Block.isValid_iff.mp valid).2.2.2
      rw [validateBlock, valid, listed]
      simp only [Bool.not_true, Bool.false_eq_true, if_false, isCoinbase, work, true_and]
      by_cases linked :
          block.header.prevBlockHash = (if state.height = 0 then zeroHash else state.tipHash)
      · rw [if_neg (not_not.mpr linked)]
        cases outputs : validateOutputs (state.height + 1) state.totalSupply
            (getCoinbaseOutputs coinbase).toList with
        | none => simp [outputs]
        | some allowed => cases allowed <;> simp [outputs, linked]
      · rw [if_pos linked]
        simp [linked]

/-- A valid block is applied, and anything else changes nothing. -/
theorem applyBlock_cases (state : ChainState) (block : Block) :
    (state.validateBlock block ≠ some true ∧
      state.applyBlock block = (state.validateBlock block, state)) ∨
    (state.validateBlock block = some true ∧ ∃ coinbase rest,
      block.transactions = coinbase :: rest ∧ coinbase.isCoinbase = true ∧
      state.applyBlock block = (some true,
        { height := state.height + 1
          tipHash := block.getHash
          totalSupply := adjustAll (· + ·) 0 state.totalSupply (getCoinbaseOutputs coinbase) })) := by
  by_cases valid : state.validateBlock block = some true
  · have validBlock := (validateBlock_eq_true.mp valid).1
    obtain ⟨coinbase, rest, listed, isCoinbase, _⟩ := Block.isValid_shape validBlock
    refine .inr ⟨valid, coinbase, rest, listed, isCoinbase, ?_⟩
    rw [applyBlock, valid, listed]
  · refine .inl ⟨valid, ?_⟩
    unfold applyBlock
    split
    · rename_i accepted _
      exact absurd accepted valid
    · rfl

end ChainState

end Parthenon.Chainstate
