import Parthenon.Consensus.Issuance
import Parthenon.Primitives.Block
import Parthenon.Primitives.WireCanonical

namespace Parthenon.Consensus

open Parthenon.Library Parthenon.Crypto Parthenon.Primitives

/-! # The genesis blocks -/

inductive NetworkType
  | mainnet
  | testnet
  | regtest
deriving DecidableEq, Repr

structure GenesisParams where
  network : NetworkType
  name : String
  timestamp : UInt32
  bits : UInt32
  nonce : UInt32
  coinbaseMessage : String
  talantonOutput : UInt64
  drachmaOutput : UInt64
  obolosOutput : UInt64

namespace Genesis

def genesisTimestamp : UInt32 := 1704067200

def talantonGenesis : UInt64 := 50 * AssetSupply.baseUnit

def drachmaGenesis : UInt64 := 9761900000

def obolosGenesis : UInt64 := 14523800000

def mainnetGenesisHash : Hash := ⟨[
  0x66, 0x01, 0x89, 0xb8, 0x46, 0x6f, 0xa2, 0x95, 0x7f, 0x0a, 0x8b,
  0xf9, 0xbb, 0xe6, 0xfd, 0xda, 0x5c, 0xc4, 0xeb, 0x79, 0xae, 0x57,
  0xf2, 0x41, 0x61, 0xdf, 0x72, 0x6c, 0xee, 0x4b, 0x85, 0x44], rfl⟩

def testnetGenesisHash : Hash := ⟨[
  0xfe, 0x73, 0x9e, 0x3c, 0x1e, 0x27, 0x50, 0x9a, 0x9c, 0x7d, 0x22,
  0x60, 0xe3, 0x94, 0x38, 0xf1, 0xff, 0x1c, 0x44, 0xdc, 0x03, 0xa6,
  0x30, 0x9e, 0x68, 0x73, 0x7b, 0x2c, 0xc6, 0x2c, 0x38, 0x75], rfl⟩

def regtestGenesisHash : Hash := ⟨[
  0xf8, 0x5d, 0x0b, 0xad, 0x36, 0xaf, 0xae, 0x82, 0xec, 0x8b, 0x2c,
  0x60, 0xa9, 0x58, 0x7a, 0xb2, 0xd3, 0x65, 0x81, 0xb4, 0xea, 0x31,
  0xa1, 0x08, 0xb7, 0xcc, 0xfe, 0xfb, 0x97, 0x76, 0xbc, 0x15], rfl⟩

def getGenesisParams (network : NetworkType) : GenesisParams :=
  let params (name : String) (bits : UInt32) (coinbaseMessage : String) : GenesisParams :=
    { network, name, bits, coinbaseMessage
      timestamp := genesisTimestamp
      nonce := 0
      talantonOutput := talantonGenesis
      drachmaOutput := drachmaGenesis
      obolosOutput := obolosGenesis }
  match network with
  | .mainnet => params "mainnet" Difficulty.getInitialBits
      "ParthenonChain Genesis - 2024-01-01 - The Times 01/Jan/2024"
  | .testnet => params "testnet" Difficulty.getInitialBits
      "ParthenonChain Testnet Genesis - 2024-01-01"
  | .regtest => params "regtest" 0x207fffff "ParthenonChain Regtest Genesis"

/-- The script of the coinbase input: the bytes of an ASCII message. -/
def messageScript (message : String) : ByteVector :=
  (ByteVector.ofBytes? (message.toList.map fun character => UInt8.ofNat character.toNat)).getD .empty

def unspendableScript : ByteVector := .ofArray zeroHash ByteVector.hash_small

def genesisCoinbase (params : GenesisParams) : Transaction where
  version := 1
  inputs := [{ prevout := ⟨zeroHash, coinbaseVoutIndex⟩
               signatureScript := messageScript params.coinbaseMessage
               sequence := 0xFFFFFFFF }]
  outputs := [
    { value := { asset := .talanton, amount := params.talantonOutput },
      pubkeyScript := unspendableScript },
    { value := { asset := .drachma, amount := params.drachmaOutput },
      pubkeyScript := unspendableScript },
    { value := { asset := .obolos, amount := params.obolosOutput },
      pubkeyScript := unspendableScript }]
  locktime := 0

def getGenesisBlock (network : NetworkType) : Block :=
  let params := getGenesisParams network
  let coinbase := genesisCoinbase params
  { header :=
      { version := 1
        prevBlockHash := zeroHash
        merkleRoot := MerkleTree.calculateTransactionsRoot [coinbase]
        timestamp := params.timestamp
        bits := params.bits
        nonce := params.nonce
        baseFeePerGas := 1000000000
        gasUsed := 0
        gasLimit := 30000000 }
    transactions := [coinbase] }

def getGenesisHash (network : NetworkType) : Hash := (getGenesisBlock network).getHash

def getExpectedGenesisHash : NetworkType → Hash
  | .mainnet => mainnetGenesisHash
  | .testnet => testnetGenesisHash
  | .regtest => regtestGenesisHash

def isExpectedGenesisBlock (block : Block) (network : NetworkType) : Bool :=
  let expected := getGenesisBlock network
  block.getHash = getExpectedGenesisHash network &&
    expected.getHash = getExpectedGenesisHash network &&
    block.header.version = expected.header.version &&
    block.header.prevBlockHash = expected.header.prevBlockHash &&
    block.header.timestamp = expected.header.timestamp &&
    block.header.bits = expected.header.bits &&
    block.header.nonce = expected.header.nonce &&
    block.header.merkleRoot = expected.header.merkleRoot &&
    match block.transactions with
    | [coinbase] => coinbase.isCoinbase &&
        coinbase.serialize = (genesisCoinbase (getGenesisParams network)).serialize
    | _ => false

theorem genesisCoinbase_withinLimits (params : GenesisParams) :
    (genesisCoinbase params).WithinLimits := by
  refine ⟨?_, ?_⟩
  · change 1 ≤ Transaction.maxCount
    decide
  · change 3 ≤ Transaction.maxCount
    decide

theorem getGenesisBlock_withinLimits (network : NetworkType) :
    (getGenesisBlock network).WithinLimits := by
  refine ⟨?_, ?_⟩
  · change 1 ≤ 1 ∧ 1 ≤ Block.maxTransactions
    decide
  · intro tx member
    obtain rfl : tx = genesisCoinbase (getGenesisParams network) := List.mem_singleton.mp member
    exact genesisCoinbase_withinLimits _

/-- The expected genesis block has the genesis coinbase alone. -/
theorem isExpectedGenesisBlock_coinbase {block : Block} {network : NetworkType}
    (limits : block.WithinLimits) (expected : isExpectedGenesisBlock block network = true) :
    block.transactions = [genesisCoinbase (getGenesisParams network)] := by
  simp only [isExpectedGenesisBlock, Bool.and_eq_true] at expected
  obtain ⟨_, transactions⟩ := expected
  split at transactions
  · rename_i coinbase listed
    simp only [Bool.and_eq_true, decide_eq_true_eq] at transactions
    have member : coinbase ∈ block.transactions := by
      rw [listed]
      exact List.mem_cons_self
    rw [listed, Transaction.serialize_injective (limits.2 coinbase member) (genesisCoinbase_withinLimits _)
      transactions.2]
  · cases transactions

/-- The reward of the genesis block in drachma is above any that is ever allowed. -/
theorem drachmaGenesis_not_allowed (height : UInt64) :
    Issuance.isValidBlockReward height .drachma drachmaGenesis = false := by
  have reward := Issuance.getBlockReward_le height .drachma
  have below : Issuance.getInitialReward .drachma < drachmaGenesis := by decide
  have above : ¬ drachmaGenesis ≤ Issuance.getBlockReward height .drachma := by
    intro allowed
    exact absurd (UInt64.lt_of_lt_of_le below (UInt64.le_trans allowed reward)) (UInt64.lt_irrefl _)
  rw [Issuance.isValidBlockReward, decide_eq_false above, Bool.false_and]

end Genesis

end Parthenon.Consensus
