import Parthenon.Chainstate.Utxo
import Parthenon.Consensus.Issuance
import Parthenon.Primitives.Block

namespace Parthenon.Chainstate

open Parthenon.Library Parthenon.Crypto Parthenon.Primitives Parthenon.Consensus

/-! # The chain

`Chain` validates and applies the transactions of a block one after another on
the live UTXO set.
-/

@[ext] structure BlockIndex where
  hash : Hash
  prevHash : Hash
  height : UInt32
  timestamp : UInt32
  bits : UInt32
  chainWork : UInt64
deriving DecidableEq, Repr

def BlockIndex.ofHeader (header : BlockHeader) (height : UInt32) (work : UInt64) : BlockIndex where
  hash := header.getHash
  prevHash := header.prevBlockHash
  height
  timestamp := header.timestamp
  bits := header.bits
  chainWork := work

abbrev BlockIndexMap := Std.ExtTreeMap Hash BlockIndex compare

/-- The amounts at the three native assets are zero. -/
def initialSupply : AmountMap := (((∅ : AmountMap).insert .talanton 0).insert .drachma 0).insert .obolos 0

structure Chain where
  utxoSet : UTXOSet
  height : UInt32
  tipHash : Hash
  blockIndex : BlockIndexMap
  totalSupply : AmountMap

namespace Chain

def fresh : Chain where
  utxoSet := ∅
  height := 0
  tipHash := zeroHash
  blockIndex := ∅
  totalSupply := initialSupply

def getTotalSupply (chain : Chain) (asset : AssetID) : UInt64 := chain.totalSupply.getD asset 0

/-- The coins of the outpoints, if every one is in the set and spendable. -/
def inputCoins (set : UTXOSet) (height : UInt32) : List OutPoint → Option (List Coin)
  | [] => some []
  | outpoint :: rest =>
      match set.getCoin outpoint with
      | none => none
      | some coin =>
          if coin.isSpendable height then (inputCoins set height rest).map (coin :: ·) else none

/-- Validate a transaction against a UTXO set; a valid one comes with its input coins. -/
def validateTransaction (set : UTXOSet) (tx : Transaction) (height : UInt32) : Option (List Coin) :=
  if tx.isCoinbase then some []
  else
    match inputCoins set height tx.prevouts with
    | none => none
    | some coins =>
        let inputAmounts := AmountMap.sum (coins.map (·.output.value))
        let outputAmounts := AmountMap.sum (tx.outputs.map TxOutput.value)
        if inputAmounts.covers outputAmounts then some coins else none

def updateSupply (totalSupply : AmountMap) (coinbase : Transaction) (connect : Bool) : AmountMap :=
  if !coinbase.isCoinbase then totalSupply
  else
    let amounts := AmountMap.sum (coinbase.outputs.map TxOutput.value)
    if connect then adjustAll (· + ·) 0 totalSupply amounts
    else adjustAll (· - ·) 0 totalSupply amounts

/-- The reward loop of `ConnectBlock`.  Reading a supply with `operator[]` stores
a zero for an asset that had none. -/
def checkRewards (blockHeight : UInt32) : List (AssetID × UInt64) → AmountMap → Bool × AmountMap
  | [], totalSupply => (true, totalSupply)
  | (asset, amount) :: rest, totalSupply =>
      if !Issuance.isValidBlockReward blockHeight.toUInt64 asset amount then (false, totalSupply)
      else
        let totalSupply := totalSupply.insertIfNew asset 0
        let supply := totalSupply.getD asset 0
        let newSupply := supply + amount
        if newSupply < supply then (false, totalSupply)
        else if newSupply > AssetSupply.getMaxSupply asset then (false, totalSupply)
        else checkRewards blockHeight rest totalSupply

/-- The transaction loop of `ConnectBlock` past the coinbase. -/
def connectTransactions (blockHeight : UInt32) :
    List Transaction → UTXOSet → BlockUndo → Bool × UTXOSet × BlockUndo
  | [], set, undo => (true, set, undo)
  | tx :: rest, set, undo =>
      match validateTransaction set tx blockHeight with
      | none => (false, set, undo)
      | some coins =>
          connectTransactions blockHeight rest
            ((set.spendInputs tx).addOutputs tx blockHeight false) (undo.addTxUndo coins)

/-- The work of the block that extends a chain to `height`. -/
def nextWork (index : BlockIndexMap) (height : UInt32) (prevBlockHash : Hash) : UInt64 :=
  if height > 1 then
    match index[prevBlockHash]? with
    | some prev => prev.chainWork + 1
    | none => 1
  else 1

/-- Whether the block was connected, with the chain and the undo data the call leaves. -/
def connectBlock (chain : Chain) (block : Block) (undo : BlockUndo) : Bool × Chain × BlockUndo :=
  if !block.isValid then (false, chain, undo)
  else if !Difficulty.checkProofOfWork block.getHash block.header.bits then (false, chain, undo)
  else
    match block.transactions with
    | [] => (false, chain, undo)
    | coinbase :: rest =>
        if !coinbase.isCoinbase then (false, chain, undo)
        else
          let blockHeight := chain.height + 1
          let coinbaseAmounts := AmountMap.sum (coinbase.outputs.map TxOutput.value)
          match checkRewards blockHeight coinbaseAmounts.toList chain.totalSupply with
          | (false, totalSupply) => (false, { chain with totalSupply }, undo)
          | (true, totalSupply) =>
              let withCoinbase := chain.utxoSet.addOutputs coinbase blockHeight true
              match connectTransactions blockHeight rest withCoinbase undo with
              | (false, utxoSet, undo) => (false, { chain with utxoSet, totalSupply }, undo)
              | (true, utxoSet, undo) =>
                  let tipHash := block.getHash
                  let work := nextWork chain.blockIndex blockHeight block.header.prevBlockHash
                  (true,
                    { utxoSet
                      height := blockHeight
                      tipHash
                      blockIndex := chain.blockIndex.insert tipHash
                        (.ofHeader block.header blockHeight work)
                      totalSupply := updateSupply totalSupply coinbase true },
                    undo)

/-- The transaction loop of `DisconnectBlock` down to the coinbase: the
transactions and the undo data are given from the last one on. -/
def disconnectTransactions : List Transaction → List (List Coin) → UTXOSet → Bool × UTXOSet
  | [], _, set => (true, set)
  | tx :: _, [], set => (false, set.removeOutputs tx)
  | tx :: earlier, coins :: undos, set =>
      if coins.length ≠ tx.inputs.length then (false, set.removeOutputs tx)
      else disconnectTransactions earlier undos ((set.removeOutputs tx).restoreInputs tx coins)

/-- Whether the block was disconnected, with the chain the call leaves.  A tip
without transactions, whose coinbase the source would read past the end of an
empty vector, is refused here. -/
def disconnectBlock (chain : Chain) (block : Block) (undo : BlockUndo) : Bool × Chain :=
  if chain.height = 0 then (false, chain)
  else if block.getHash ≠ chain.tipHash then (false, chain)
  else
    match block.transactions with
    | [] => (false, chain)
    | coinbase :: rest =>
        match disconnectTransactions rest.reverse undo.txUndo.reverse chain.utxoSet with
        | (false, utxoSet) => (false, { chain with utxoSet })
        | (true, utxoSet) =>
            (true,
              { utxoSet := utxoSet.removeOutputs coinbase
                height := chain.height - 1
                tipHash := block.header.prevBlockHash
                blockIndex := chain.blockIndex.erase block.getHash
                totalSupply := updateSupply chain.totalSupply coinbase false })

end Chain

end Parthenon.Chainstate
