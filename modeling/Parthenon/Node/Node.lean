import Parthenon.Chainstate.ChainState
import Parthenon.Consensus.Genesis
import Parthenon.Mempool.Mempool
import Parthenon.Storage.BlockStorage

namespace Parthenon

open Library Crypto Primitives Consensus Chainstate Validation Storage

/-! # The node

The parts of a node that keep the ledger: the chain, the chain state of the
miner, the mempool and the stored blocks.  The database of the coins is written
to and never read, so only whether it opens matters.
-/

inductive NetworkMode
  | mainnet
  | testnet
  | regtest
deriving DecidableEq, Repr

def toConsensusNetworkType : NetworkMode → NetworkType
  | .mainnet => .mainnet
  | .testnet => .testnet
  | .regtest => .regtest

structure Node (db : LevelDB) where
  networkMode : NetworkMode
  running : Bool
  chain : Chain
  chainState : ChainState
  mempool : Mempool
  blockStorage : BlockStorage db

namespace Node

variable {db : LevelDB}

/-- A node over what its database path holds. -/
def construct (networkMode : NetworkMode) (disk : db.Disk) : Node db where
  networkMode
  running := false
  chain := .fresh
  chainState := .fresh
  mempool := .fresh
  blockStorage := { disk, isOpen := false }

def getHeight (node : Node db) : UInt32 := node.chain.height

/-- The part of `Start` that makes sure the stored chain has the genesis block.
`none` is an exception. -/
def loadGenesis (network : NetworkType) (storage : BlockStorage db) :
    Option Bool × BlockStorage db :=
  if storage.getHeight ≥ 1 then
    match storage.getBlockByHeight 1 with
    | .error .resizeThrows => (none, storage)
    | .error .nullopt => (some false, storage)
    | .ok block => (some (Genesis.isExpectedGenesisBlock block.toBlock network), storage)
  else
    let (stored, storage) := storage.storeBlock (Genesis.getGenesisBlock network) 1
    if !stored then (some false, storage)
    else
      let (updated, storage) := storage.updateChainTip 1 (Genesis.getExpectedGenesisHash network)
      (some updated, storage)

/-- The replay loop of `Start`.  The outer `none` is a loop longer than the fuel,
the inner one an exception. -/
def replayBlocks (storage : BlockStorage db) (chainHeight : UInt32) :
    Nat → UInt32 → Chain → Option (Option Bool × Chain)
  | 0, _, _ => none
  | fuel + 1, height, chain =>
      if height ≤ chainHeight then
        match storage.getBlockByHeight height with
        | .error .resizeThrows => some (none, chain)
        | .error .nullopt => some (some false, chain)
        | .ok block =>
            match chain.connectBlock block.toBlock .empty with
            | (false, chain, _) => some (some false, chain)
            | (true, chain, _) => replayBlocks storage chainHeight fuel (height + 1) chain
      else some (some true, chain)

/-- Close the storage and give up. -/
def refuseStart (node : Node db) : Option Bool × Node db :=
  (some false, { node with blockStorage := node.blockStorage.close })

/-- Whether the node started, the inner `none` being an exception, with the node
the call leaves.  The call is told whether the coin database opens and the network
starts; the outer `none` is a replay longer than the fuel. -/
def start (fuel : Nat) (utxoOpens networkStarts : Bool) (node : Node db) :
    Option (Option Bool × Node db) :=
  if node.running then some (some false, node)
  else
    let (opened, blockStorage) := node.blockStorage.openPath
    let node := { node with blockStorage }
    if !opened then some (some false, node)
    else if !utxoOpens then some node.refuseStart
    else
      let (loaded, blockStorage) :=
        loadGenesis (toConsensusNetworkType node.networkMode) node.blockStorage
      let node := { node with blockStorage }
      match loaded with
      | none => some (none, node)
      | some false => some node.refuseStart
      | some true =>
          match replayBlocks node.blockStorage node.blockStorage.getHeight fuel 1 node.chain with
          | none => none
          | some (replayed, chain) =>
              let node := { node with chain }
              match replayed with
              | none => some (none, node)
              | some false => some node.refuseStart
              | some true =>
                  if networkStarts then some (some true, { node with running := true })
                  else some node.refuseStart

/-- The validators a transaction passes before the mempool or the chain sees it. -/
def passesValidators (secp : Secp256k1) (node : Node db) (tx : Transaction) : Bool :=
  (TransactionValidator.validateStructure tx).isOk &&
    (TransactionValidator.validateAgainstUTXO tx node.chain.utxoSet node.getHeight).isOk &&
    (TransactionValidator.validateSignatures secp tx node.chain.utxoSet).isOk

/-- The mempool reads the clock as `time`.  `none` is a call that does not return. -/
def submitTransaction (secp : Secp256k1) (fuel : Nat) (node : Node db) (tx : CachedTransaction)
    (time : UInt32) : Option (Bool × Node db) :=
  if !node.passesValidators secp tx.toTransaction then some (false, node)
  else
    match node.mempool.addTransaction fuel tx node.chain.utxoSet node.getHeight time with
    | none => none
    | some (added, mempool) => some (added, { node with mempool })

/-- Nothing is made of a write that fails. -/
def storeTip (storage : BlockStorage db) (block : Block) (height : UInt32) : BlockStorage db :=
  if storage.isOpen then ((storage.storeBlock block height).2.updateChainTip height block.getHash).2
  else storage

/-- Whether the block was accepted, `none` being an exception, with the node the
call leaves. -/
def validateAndApplyBlock (secp : Secp256k1) (node : Node db) (block : Block) :
    Option Bool × Node db :=
  if !block.isValid then (some false, node)
  else
    match node.chainState.validateBlock block with
    | none => (none, node)
    | some false => (some false, node)
    | some true =>
        if !(block.transactions.drop 1).all (node.passesValidators secp) then (some false, node)
        else
          match node.chain.connectBlock block .empty with
          | (false, chain, _) => (some false, { node with chain })
          | (true, chain, _) =>
              match node.chainState.applyBlock block with
              | (none, chainState) => (none, { node with chain, chainState })
              | (some _, chainState) =>
                  -- A chain state that does not follow is only warned about.
                  (some true,
                    { node with
                      chain
                      chainState
                      blockStorage := storeTip node.blockStorage block chain.height
                      mempool := node.mempool.removeTransactions
                        (block.transactions.map Transaction.getTxID) })

end Node

inductive NodeCall
  | start (utxoOpens networkStarts : Bool)
  | submitTransaction (tx : CachedTransaction) (time : UInt32)
  | validateAndApplyBlock (block : Block)

namespace Node

variable {db : LevelDB}

/-- A call that returns or throws leaves the node `after`. -/
def Step (secp : Secp256k1) (node : Node db) (call : NodeCall) (after : Node db) : Prop :=
  match call with
  | .start utxoOpens networkStarts =>
      ∃ fuel result, node.start fuel utxoOpens networkStarts = some (result, after)
  | .submitTransaction tx time =>
      ∃ fuel result, node.submitTransaction secp fuel tx time = some (result, after)
  | .validateAndApplyBlock block => after = (node.validateAndApplyBlock secp block).2

end Node

end Parthenon
