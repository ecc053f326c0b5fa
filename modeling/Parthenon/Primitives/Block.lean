import Parthenon.Consensus.Difficulty
import Parthenon.Library.PairTree
import Parthenon.Primitives.Wire

namespace Parthenon.Primitives

open Parthenon.Library Parthenon.Crypto Parthenon.Consensus

namespace BlockHeader

def getHash (header : BlockHeader) : Hash := SHA256d.hash256d header.serialize

def meetsDifficultyTarget (header : BlockHeader) : Bool :=
  Difficulty.checkProofOfWork header.getHash header.bits

end BlockHeader

namespace MerkleTree

def hashNodes (left right : Hash) : Hash := SHA256d.hash256d (left.bytes ++ right.bytes)

def calculateRoot (hashes : List Hash) : Hash := pairRoot hashNodes zeroHash hashes

def calculateTransactionsRoot (transactions : List Transaction) : Hash :=
  calculateRoot (transactions.map Transaction.getTxID)

/-- The byte strings hashed while the root of the transactions is computed. -/
def hashedStrings (transactions : List Transaction) : List Bytes :=
  transactions.map Transaction.serialize ++
    (combinedPairs hashNodes (transactions.map Transaction.getTxID)).map fun pair =>
      pair.1.bytes ++ pair.2.bytes

end MerkleTree

namespace Block

def getHash (block : Block) : Hash := block.header.getHash

def calculateMerkleRoot (block : Block) : Hash :=
  MerkleTree.calculateTransactionsRoot block.transactions

/-- The transaction list has a coinbase in front and nowhere else. -/
def coinbaseFirst : List Transaction → Bool
  | [] => false
  | coinbase :: rest => coinbase.isCoinbase && rest.all fun tx => !tx.isCoinbase

def isValid (block : Block) : Bool :=
  coinbaseFirst block.transactions && block.transactions.all Transaction.isValid &&
    block.calculateMerkleRoot = block.header.merkleRoot && block.header.meetsDifficultyTarget

theorem isValid_iff {block : Block} :
    block.isValid = true ↔ coinbaseFirst block.transactions = true ∧
      (∀ tx ∈ block.transactions, tx.isValid = true) ∧
      block.calculateMerkleRoot = block.header.merkleRoot ∧
      block.header.meetsDifficultyTarget = true := by
  simp [isValid, and_assoc]

/-- A valid block is a coinbase followed by ordinary transactions. -/
theorem isValid_shape {block : Block} (valid : block.isValid = true) :
    ∃ coinbase rest, block.transactions = coinbase :: rest ∧ coinbase.isCoinbase = true ∧
      ∀ tx ∈ rest, tx.isCoinbase = false := by
  obtain ⟨shape, _⟩ := isValid_iff.mp valid
  cases listed : block.transactions with
  | nil => simp [listed, coinbaseFirst] at shape
  | cons coinbase rest =>
      rw [listed] at shape
      simp only [coinbaseFirst, Bool.and_eq_true, List.all_eq_true, Bool.not_eq_true'] at shape
      exact ⟨coinbase, rest, rfl, shape.1, shape.2⟩

end Block

/-! Transactions and blocks for concrete cases. -/
namespace Sample

def output (amount : UInt64) (script : ByteVector) : TxOutput :=
  { value := { asset := .talanton, amount }, pubkeyScript := script }

def coinbase (outputs : List TxOutput) : Transaction where
  version := 1
  inputs := [{ prevout := ⟨zeroHash, coinbaseVoutIndex⟩, signatureScript := .empty,
               sequence := 0xFFFFFFFF }]
  outputs
  locktime := 0

def spend (prevout : OutPoint) (script : ByteVector) (outputs : List TxOutput) : Transaction where
  version := 1
  inputs := [{ prevout, signatureScript := script, sequence := 0xFFFFFFFF }]
  outputs
  locktime := 0

/-- A block with the easiest target the compact form can state. -/
def block (prevBlockHash merkleRoot : Hash) (transactions : List Transaction) : Block where
  header :=
    { version := 1
      prevBlockHash
      merkleRoot
      timestamp := 0
      bits := 0x20ffffff
      nonce := 0
      baseFeePerGas := 1000000000
      gasUsed := 0
      gasLimit := 30000000 }
  transactions

end Sample

end Parthenon.Primitives
