import Parthenon.Library.PrunedPath
import Parthenon.Primitives.BlockCommitment

namespace Parthenon.Bridge

open Parthenon.Library Parthenon.Crypto Parthenon.Primitives

/-! # The SPV bridge

Merkle proofs over byte vectors.  The root is the one that blocks have, but a proof
skips the levels on which a node is hashed with itself, and a transaction is hashed
once where its identifier hashes it twice.
-/

structure MerkleProof where
  txHash : Bytes
  proofHashes : List Bytes
  proofFlags : List Bool
deriving DecidableEq

namespace SPVBridge

def hashPair (left right : Bytes) : Bytes :=
  let hash1 := SHA256.hash256 (left ++ right)
  (SHA256.hash256 hash1.bytes).bytes

def verifyMerkleProof (proof : MerkleProof) (merkleRoot : Bytes) : Bool :=
  if proof.proofHashes.length ≠ proof.proofFlags.length then false
  else climb hashPair proof.txHash (proof.proofHashes.zip proof.proofFlags) = merkleRoot

def verifyTransactionInclusion (tx : Transaction) (proof : MerkleProof) (header : BlockHeader) : Bool :=
  if (SHA256.hash256 tx.serialize).bytes ≠ proof.txHash then false
  else verifyMerkleProof proof header.merkleRoot.bytes

/-- A hash that is not listed gets the empty proof. -/
def buildMerkleProof (txHash : Bytes) (txHashes : List Bytes) : MerkleProof :=
  match txHashes.idxOf? txHash with
  | none => { txHash, proofHashes := [], proofFlags := [] }
  | some index =>
      let path := prunedPath hashPair txHashes index
      { txHash, proofHashes := path.map Prod.fst, proofFlags := path.map Prod.snd }

def computeMerkleRoot (hashes : List Bytes) : Bytes := pairRoot hashPair zeroHash.bytes hashes

/-! ## On hashes of 32 bytes -/

theorem hashNodes_bytes (left right : Hash) :
    (MerkleTree.hashNodes left right).bytes = hashPair left.bytes right.bytes := rfl

/-- The bridge and the blocks compute one root. -/
theorem computeMerkleRoot_bytes (hashes : List Hash) :
    computeMerkleRoot (hashes.map FixedBytes.bytes) = (MerkleTree.calculateRoot hashes).bytes :=
  pairRoot_map hashNodes_bytes zeroHash hashes

theorem bytes_injective : Function.Injective (FixedBytes.bytes : Hash → Bytes) :=
  fun _ _ same => FixedBytes.ext same

theorem idxOf?_bytes {hashes : List Hash} {hash : Hash} (member : hash ∈ hashes) :
    (hashes.map FixedBytes.bytes).idxOf? hash.bytes = some (hashes.idxOf hash) := by
  induction hashes with
  | nil => cases member
  | cons first rest ih =>
      rw [List.map_cons, List.idxOf?_cons, List.idxOf_cons]
      by_cases same : first = hash
      · rw [same, beq_self_eq_true, beq_self_eq_true]
        rfl
      · have later : hash ∈ rest := (List.mem_cons.mp member).resolve_left (Ne.symm same)
        rw [beq_false_of_ne same, beq_false_of_ne (bytes_injective.ne same), ih later]
        rfl

/-- A proof that was built is climbed along the pruned path. -/
theorem verifyMerkleProof_build {hashes : List Hash} {hash : Hash} (member : hash ∈ hashes)
    (root : Hash) :
    verifyMerkleProof (buildMerkleProof hash.bytes (hashes.map FixedBytes.bytes)) root.bytes = true ↔
      climb MerkleTree.hashNodes hash
        (prunedPath MerkleTree.hashNodes hashes (hashes.idxOf hash)) = root := by
  rw [buildMerkleProof, idxOf?_bytes member]
  dsimp only
  rw [verifyMerkleProof, if_neg (by rw [List.length_map, List.length_map]; exact not_not.mpr rfl),
    decide_eq_true_iff, ← List.zip_of_prod rfl rfl, prunedPath_map MerkleTree.hashNodes hashNodes_bytes,
    climb_map hashNodes_bytes]
  exact bytes_injective.eq_iff

/-- The bridge accepts the proof that it builds for a listed hash. -/
def ProvesInclusion (hashes : List Hash) (hash : Hash) : Prop :=
  verifyMerkleProof (buildMerkleProof hash.bytes (hashes.map FixedBytes.bytes))
    (computeMerkleRoot (hashes.map FixedBytes.bytes)) = true

/-- The bridge accepts a transaction with the proof that it builds from the identifiers of a block. -/
def AcceptsTransaction (block : Block) (tx : Transaction) : Prop :=
  verifyTransactionInclusion tx
    (buildMerkleProof tx.getTxID.bytes
      ((block.transactions.map Transaction.getTxID).map FixedBytes.bytes)) block.header = true

/-- On every level on the way from a hash to the root there is a sibling. -/
def HashSiblings (hashes : List Hash) (hash : Hash) : Prop :=
  HasSiblings hashes.length (hashes.idxOf hash)

/-- The pairs that are hashed while the root is computed and the proof is checked. -/
def hashedPairs (hashes : List Hash) (hash : Hash) : List (Hash × Hash) :=
  combinedPairs MerkleTree.hashNodes hashes ++
    climbPairs MerkleTree.hashNodes hash
      (prunedPath MerkleTree.hashNodes hashes (hashes.idxOf hash))

/-- SHA-256d has no collision among the pairs that are hashed, and the hash itself is not
that of a pair. -/
structure NoCoincidence (hashes : List Hash) (hash : Hash) : Prop where
  injective : Set.InjOn SHA256d.hash256d
    (fun data => data ∈ (hashedPairs hashes hash).map fun pair => pair.1.bytes ++ pair.2.bytes)
  apart : ∀ pair ∈ hashedPairs hashes hash, hash ≠ MerkleTree.hashNodes pair.1 pair.2

theorem provesInclusion_iff_climb {hashes : List Hash} {hash : Hash} (member : hash ∈ hashes) :
    ProvesInclusion hashes hash ↔
      climb MerkleTree.hashNodes hash (prunedPath MerkleTree.hashNodes hashes (hashes.idxOf hash)) =
        MerkleTree.calculateRoot hashes := by
  rw [ProvesInclusion, computeMerkleRoot_bytes, verifyMerkleProof_build member]

theorem provesInclusion_of_siblings {hashes : List Hash} {hash : Hash} (member : hash ∈ hashes)
    (siblings : HashSiblings hashes hash) : ProvesInclusion hashes hash := by
  have inside := List.idxOf_lt_length_iff.mpr member
  have climbed := climb_prunedPath MerkleTree.hashNodes zeroHash inside siblings
  rw [List.getElem_idxOf] at climbed
  exact (provesInclusion_iff_climb member).mpr climbed

theorem provesInclusion_iff {hashes : List Hash} {hash : Hash} (member : hash ∈ hashes)
    (free : NoCoincidence hashes hash) :
    ProvesInclusion hashes hash ↔ HashSiblings hashes hash := by
  have inside := List.idxOf_lt_length_iff.mpr member
  have isHash : hashes[hashes.idxOf hash] = hash := List.getElem_idxOf inside
  have injective : Set.InjOn (fun pair : Hash × Hash => MerkleTree.hashNodes pair.1 pair.2)
      (fun pair => pair ∈ hashedPairs hashes hash) := by
    intro first isFirst second isSecond same
    exact MerkleTree.nodeBytes_inj (free.injective (List.mem_map.mpr ⟨first, isFirst, rfl⟩)
      (List.mem_map.mpr ⟨second, isSecond, rfl⟩) same)
  have climbed := climb_prunedPath_iff MerkleTree.hashNodes injective zeroHash inside
    (fun pair member => List.mem_append_left _ member)
    (fun pair member => List.mem_append_right _ (by rwa [isHash] at member))
    (by
      rw [isHash]
      rintro ⟨pair, isPair, same⟩
      exact free.apart pair (List.mem_append_left _ isPair) same)
  rw [isHash] at climbed
  exact (provesInclusion_iff_climb member).trans climbed

/-- Of a valid block only a transaction whose hash is its own hash is accepted. -/
theorem acceptsTransaction_iff {block : Block} (valid : block.isValid = true) (tx : Transaction) :
    AcceptsTransaction block tx ↔
      SHA256.hash256 (SHA256.hash256 tx.serialize).bytes = SHA256.hash256 tx.serialize ∧
        ProvesInclusion (block.transactions.map Transaction.getTxID) tx.getTxID := by
  have committed : block.header.merkleRoot =
      MerkleTree.calculateRoot (block.transactions.map Transaction.getTxID) :=
    (Block.isValid_iff.mp valid).2.2.1.symm
  have named : (buildMerkleProof tx.getTxID.bytes
      ((block.transactions.map Transaction.getTxID).map FixedBytes.bytes)).txHash =
        tx.getTxID.bytes := by
    rw [buildMerkleProof]
    split <;> rfl
  have fixed : (SHA256.hash256 tx.serialize).bytes = tx.getTxID.bytes ↔
      SHA256.hash256 (SHA256.hash256 tx.serialize).bytes = SHA256.hash256 tx.serialize :=
    bytes_injective.eq_iff.trans eq_comm
  rw [AcceptsTransaction, verifyTransactionInclusion, named, committed, ProvesInclusion,
    computeMerkleRoot_bytes, ← fixed]
  by_cases same : (SHA256.hash256 tx.serialize).bytes = tx.getTxID.bytes
  · rw [if_neg (not_not.mpr same), and_iff_right same]
  · rw [if_pos same]
    exact iff_of_false nofun fun both => same both.1

/-- The bridge accepts its proof of a listed hash where every level has a sibling, and without
a coincidence of hashes only there.  A transaction of a valid block is accepted only if its SHA-256
hash is a fixed point, and then as its identifier is. -/
theorem spv_complete_iff {hashes : List Hash} {hash : Hash} (listed : hash ∈ hashes) {block : Block}
    (valid : block.isValid = true) {tx : Transaction} (included : tx ∈ block.transactions) :
    ((HashSiblings hashes hash → ProvesInclusion hashes hash) ∧
      (NoCoincidence hashes hash → (ProvesInclusion hashes hash ↔ HashSiblings hashes hash))) ∧
    ((SHA256.hash256 (SHA256.hash256 tx.serialize).bytes = SHA256.hash256 tx.serialize ∧
        HashSiblings (block.transactions.map Transaction.getTxID) tx.getTxID →
      AcceptsTransaction block tx) ∧
      (AcceptsTransaction block tx →
        SHA256.hash256 (SHA256.hash256 tx.serialize).bytes = SHA256.hash256 tx.serialize) ∧
      (NoCoincidence (block.transactions.map Transaction.getTxID) tx.getTxID →
        (AcceptsTransaction block tx ↔
          SHA256.hash256 (SHA256.hash256 tx.serialize).bytes = SHA256.hash256 tx.serialize ∧
            HashSiblings (block.transactions.map Transaction.getTxID) tx.getTxID))) := by
  have accepts := acceptsTransaction_iff valid tx
  have named : tx.getTxID ∈ block.transactions.map Transaction.getTxID :=
    List.mem_map_of_mem included
  refine ⟨⟨provesInclusion_of_siblings listed, provesInclusion_iff listed⟩, ?_,
    fun accepted => (accepts.mp accepted).1, fun free => ?_⟩
  · rintro ⟨fixed, siblings⟩
    exact accepts.mpr ⟨fixed, provesInclusion_of_siblings named siblings⟩
  · rw [accepts, provesInclusion_iff named free]

namespace SpvSample

def coinbase : Transaction := Sample.coinbase [Sample.output 0 ⟨[1], ByteVector.one_fits⟩]

def block : Block :=
  Sample.block zeroHash
    (.ofNat 32 0xcc8d66870bd37a29ff0c4045b7715e462cf01491bdabcc4dfb060e395912ae71) [coinbase]

/-- Three hashes: the last one is alone on its level. -/
def hashes : List Hash := [.ofNat 32 1, .ofNat 32 2, .ofNat 32 3]

end SpvSample

/-- The first of three hashes is proved. -/
theorem spv_complete_first : ProvesInclusion SpvSample.hashes (.ofNat 32 1) := by
  have valid : SpvSample.block.isValid = true := by decide +kernel
  have member : FixedBytes.ofNat 32 1 ∈ SpvSample.hashes := List.mem_cons_self
  have included : SpvSample.coinbase ∈ SpvSample.block.transactions := List.mem_cons_self
  refine (spv_complete_iff member valid included).1.1 ?_
  have place : SpvSample.hashes.idxOf (FixedBytes.ofNat 32 1) = 0 := by decide
  rw [HashSiblings, place]
  refine (hasSiblings_step (by decide)).mpr ⟨by decide, ?_⟩
  exact (hasSiblings_step (by decide)).mpr ⟨by decide, hasSiblings_of_single (by decide)⟩

/-- The last of three hashes is not proved by its own proof. -/
theorem spv_incomplete_last :
    ¬ ∀ hashes : List Hash, hashes.Nodup → ∀ hash ∈ hashes, ProvesInclusion hashes hash := by
  intro all
  have proved := all SpvSample.hashes (by decide) (.ofNat 32 3) (by decide)
  exact absurd proved (by unfold ProvesInclusion; decide +kernel)

end SPVBridge

end Parthenon.Bridge
