import Parthenon.Primitives.Transaction

namespace Parthenon.Chainstate

open Parthenon.Library Parthenon.Crypto Parthenon.Primitives

/-! # The UTXO set

The set of unspent outputs, and what a transaction does to it as a list of
writes: its inputs are removed first and its outputs stored after.
-/

@[ext] structure Coin where
  output : TxOutput
  height : UInt32
  isCoinbase : Bool
deriving DecidableEq, Repr

/-- A coinbase output matures after 100 blocks; the sum wraps at 32 bits. -/
def Coin.isSpendable (coin : Coin) (currentHeight : UInt32) : Bool :=
  !coin.isCoinbase || currentHeight ≥ coin.height + 100

abbrev UTXOSet := Std.ExtTreeMap OutPoint Coin compare

namespace UTXOSet

def addCoin (set : UTXOSet) (outpoint : OutPoint) (coin : Coin) : UTXOSet :=
  set.insert outpoint coin

/-- Whether there was a coin to spend, and the set without it. -/
def spendCoin (set : UTXOSet) (outpoint : OutPoint) : Bool × UTXOSet :=
  (set.contains outpoint, set.erase outpoint)

def getCoin (set : UTXOSet) (outpoint : OutPoint) : Option Coin := set[outpoint]?

/-- One set holds every coin of another. -/
def Contains (larger smaller : UTXOSet) : Prop :=
  ∀ outpoint coin, smaller.getCoin outpoint = some coin → larger.getCoin outpoint = some coin

end UTXOSet

/-- The coins each transaction of a block spent, in the order of the transactions. -/
@[ext] structure BlockUndo where
  txUndo : List (List Coin)
deriving DecidableEq, Repr

namespace BlockUndo

def empty : BlockUndo := { txUndo := [] }

def addTxUndo (undo : BlockUndo) (coins : List Coin) : BlockUndo :=
  { txUndo := undo.txUndo ++ [coins] }

end BlockUndo

/-- A write to the UTXO set. -/
abbrev CoinUpdate := Update OutPoint Coin

/-- The outpoints of a transaction with the coins made of its outputs. -/
def createdCoins (tx : Transaction) (height : UInt32) (isCoinbase : Bool) : List (OutPoint × Coin) :=
  tx.outputs.mapIdx fun vout output => (tx.outpoint vout, { output, height, isCoinbase })

def createUpdates (tx : Transaction) (height : UInt32) (isCoinbase : Bool) : List CoinUpdate :=
  (createdCoins tx height isCoinbase).map fun created => (created.1, some created.2)

def spendUpdates (tx : Transaction) : List CoinUpdate := tx.prevouts.map fun outpoint => (outpoint, none)

def createdOutpoints (tx : Transaction) : List OutPoint :=
  tx.outputs.mapIdx fun vout _ => tx.outpoint vout

theorem createdCoins_outpoints (tx : Transaction) (height : UInt32) (isCoinbase : Bool) :
    (createdCoins tx height isCoinbase).map Prod.fst = createdOutpoints tx := by
  apply List.ext_getElem
  · simp [createdCoins, createdOutpoints]
  · intro index inCoins inOutpoints
    simp [createdCoins, createdOutpoints]

namespace UTXOSet

/-- The output loop of `ConnectBlock`. -/
def addOutputs (set : UTXOSet) (tx : Transaction) (height : UInt32) (isCoinbase : Bool) : UTXOSet :=
  (createdCoins tx height isCoinbase).foldl (fun set created => set.addCoin created.1 created.2) set

/-- The input loop of `ConnectBlock`. -/
def spendInputs (set : UTXOSet) (tx : Transaction) : UTXOSet :=
  tx.prevouts.foldl (fun set outpoint => (set.spendCoin outpoint).2) set

/-- The output loop of `DisconnectBlock`. -/
def removeOutputs (set : UTXOSet) (tx : Transaction) : UTXOSet :=
  (createdOutpoints tx).foldl (fun set outpoint => (set.spendCoin outpoint).2) set

/-- The input loop of `DisconnectBlock`. -/
def restoreInputs (set : UTXOSet) (tx : Transaction) (coins : List Coin) : UTXOSet :=
  (tx.prevouts.zip coins).foldl (fun set restored => set.addCoin restored.1 restored.2) set

theorem addOutputs_eq (set : UTXOSet) (tx : Transaction) (height : UInt32) (isCoinbase : Bool) :
    set.addOutputs tx height isCoinbase = applyUpdates set (createUpdates tx height isCoinbase) := by
  rw [addOutputs, applyUpdates, createUpdates, List.foldl_map]
  rfl

theorem spendInputs_eq (set : UTXOSet) (tx : Transaction) :
    set.spendInputs tx = applyUpdates set (spendUpdates tx) := by
  rw [spendInputs, applyUpdates, spendUpdates, List.foldl_map]
  rfl

theorem removeOutputs_eq (set : UTXOSet) (tx : Transaction) :
    set.removeOutputs tx =
      applyUpdates set ((createdOutpoints tx).map fun outpoint => (outpoint, none)) := by
  rw [removeOutputs, applyUpdates, List.foldl_map]
  rfl

theorem restoreInputs_eq (set : UTXOSet) (tx : Transaction) (coins : List Coin) :
    set.restoreInputs tx coins =
      applyUpdates set ((tx.prevouts.zip coins).map fun restored => (restored.1, some restored.2)) := by
  rw [restoreInputs, applyUpdates, List.foldl_map]
  rfl

end UTXOSet

end Parthenon.Chainstate
