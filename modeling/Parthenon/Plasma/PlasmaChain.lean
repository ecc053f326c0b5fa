import Parthenon.Crypto.Sha256
import Parthenon.Library.OrderedMap
import Parthenon.Library.PairTree

namespace Parthenon.Plasma

open Library Crypto Std

/-! # Plasma chain

Blocks are submitted in sequence.  An exit of a transaction that is proved to be in a
block waits for the end of its challenge period.
-/

structure PlasmaBlock where
  blockHash : Hash
  prevHash : Hash
  merkleRoot : Hash
  blockNumber : UInt64
  timestamp : UInt64
  transactions : List Hash
deriving DecidableEq, Repr

structure ExitRequest where
  txHash : Hash
  plasmaBlockNumber : UInt64
  owner : Bytes
  amount : UInt64
  merkleProof : Bytes
  challengePeriodEnd : UInt64
  challenged : Bool
deriving DecidableEq, Repr

structure PlasmaChain where
  currentBlockNumber : UInt64
  challengePeriod : UInt64
  blocks : ExtTreeMap UInt64 PlasmaBlock compare
  exitRequests : ExtTreeMap Bytes ExitRequest compare

/-! ## Merkle tree -/

def hashChildren (left right : Hash) : Hash :=
  ((SHA256.reset.write left.bytes).write right.bytes).finalize.1

def buildMerkleRoot (txHashes : List Hash) : Hash := pairRoot hashChildren zeroHash txHashes

/-- One level of a proof: a direction and a sibling, which is on the right of
direction 0. -/
def levelUp (current : Hash) (level : Bytes) : Hash :=
  let direction := level.getD 0 0
  let sibling := FixedBytes.copy 32 (level.drop 1)
  if direction = 0 then hashChildren current sibling
  else hashChildren sibling current

def climbLevels : Nat → Hash → Bytes → Hash
  | 0, current, _ => current
  | levels + 1, current, proof => climbLevels levels (levelUp current proof) (proof.drop 33)

def verifyMerkleProof (txHash merkleRoot : Hash) (proof : Bytes) : Bool :=
  if proof.isEmpty ∨ proof.length % 33 ≠ 0 then false
  else climbLevels (proof.length / 33) txHash proof = merkleRoot

namespace PlasmaChain

def new : PlasmaChain where
  currentBlockNumber := 0
  challengePeriod := 100
  blocks := ∅
  exitRequests := ∅

variable (chain : PlasmaChain)

def setChallengePeriod (blocks : UInt64) : PlasmaChain :=
  { chain with challengePeriod := blocks }

def getBlock (blockNumber : UInt64) : Option PlasmaBlock := chain.blocks[blockNumber]?

/-- The block follows the current one, if that is stored. -/
def follows (block : PlasmaBlock) : Bool :=
  if chain.currentBlockNumber > 0 then
    match chain.blocks[chain.currentBlockNumber]? with
    | none => true
    | some previous => block.prevHash = previous.blockHash
  else true

def submitBlock (block : PlasmaBlock) : Bool × PlasmaChain :=
  if block.blockNumber ≠ chain.currentBlockNumber + 1 then (false, chain)
  else if !chain.follows block then (false, chain)
  else
    (true,
      { chain with
        blocks := chain.blocks.insert block.blockNumber block
        currentBlockNumber := block.blockNumber })

/-- A request takes the place of an earlier one for its transaction. -/
def requestExit (request : ExitRequest) : Bool × PlasmaChain :=
  match chain.getBlock request.plasmaBlockNumber with
  | none => (false, chain)
  | some block =>
      if !verifyMerkleProof request.txHash block.merkleRoot request.merkleProof then (false, chain)
      else
        let exit :=
          { request with
            challengePeriodEnd := chain.currentBlockNumber + chain.challengePeriod
            challenged := false }
        (true, { chain with exitRequests := chain.exitRequests.insert request.txHash.bytes exit })

/-- A challenge names the transaction, and what it adds must be a proof that the
transaction is in the block of the exit. -/
def provesFraud (exit : ExitRequest) (txHash : Hash) (fraudProof : Bytes) : Bool :=
  if fraudProof.length < 32 then false
  else if fraudProof.take 32 ≠ txHash.bytes then false
  else
    let merkleBytes := fraudProof.length - 32
    if merkleBytes > 0 then
      if merkleBytes % 33 ≠ 0 then false
      else
        match chain.getBlock exit.plasmaBlockNumber with
        | none => false
        | some block => verifyMerkleProof txHash block.merkleRoot (fraudProof.drop 32)
    else true

def challengeExit (txHash : Hash) (fraudProof : Bytes) : Bool × PlasmaChain :=
  match chain.exitRequests[txHash.bytes]? with
  | none => (false, chain)
  | some exit =>
      if chain.currentBlockNumber ≥ exit.challengePeriodEnd then (false, chain)
      else if !chain.provesFraud exit txHash fraudProof then (false, chain)
      else
        (true,
          { chain with
            exitRequests := chain.exitRequests.insert txHash.bytes { exit with challenged := true } })

/-- The record of the exit is removed, paid or refused. -/
def finalizeExit (txHash : Hash) : Bool × PlasmaChain :=
  match chain.exitRequests[txHash.bytes]? with
  | none => (false, chain)
  | some exit =>
      if chain.currentBlockNumber < exit.challengePeriodEnd then (false, chain)
      else
        (!exit.challenged, { chain with exitRequests := chain.exitRequests.erase txHash.bytes })

def getPendingExits : List ExitRequest := chain.exitRequests.values

end PlasmaChain

/-! ## Inclusion proofs

The siblings on the path of a transaction prove it against the root of its block,
where there are siblings at all.
-/

def levelBytes (sibling : Hash × Bool) : Bytes :=
  (if sibling.2 then 0 else 1) :: sibling.1.bytes

/-- The siblings on the path with their directions. -/
def inclusionProof (txHashes : List Hash) (index : Nat) : Bytes :=
  (siblingPath hashChildren txHashes index).flatMap levelBytes

theorem levelBytes_length (sibling : Hash × Bool) : (levelBytes sibling).length = 33 := by
  rw [levelBytes, List.length_cons, sibling.1.length_eq]

theorem proof_length (path : List (Hash × Bool)) :
    (path.flatMap levelBytes).length = path.length * 33 := by
  induction path with
  | nil => rfl
  | cons sibling rest ih =>
      rw [List.flatMap_cons, List.length_append, levelBytes_length, ih, List.length_cons]
      omega

theorem levelUp_levelBytes (current : Hash) (sibling : Hash × Bool) (rest : Bytes) :
    levelUp current (levelBytes sibling ++ rest) = climbStep hashChildren current sibling := by
  have read : FixedBytes.copy 32 ((levelBytes sibling ++ rest).drop 1) = sibling.1 :=
    FixedBytes.copy_append sibling.1 rest
  unfold levelUp climbStep
  rw [read]
  cases onRight : sibling.2 with
  | true => simp [levelBytes, onRight]
  | false => simp [levelBytes, onRight]

/-- The levels that are read back are climbed. -/
theorem climbLevels_path (leaf : Hash) (path : List (Hash × Bool)) :
    climbLevels path.length leaf (path.flatMap levelBytes) = climb hashChildren leaf path := by
  induction path generalizing leaf with
  | nil => rfl
  | cons sibling rest ih =>
      rw [List.length_cons, climbLevels, List.flatMap_cons, levelUp_levelBytes,
        List.drop_left' (levelBytes_length sibling), ih]
      rfl

/-- A proof of the right length is refused only when it is empty. -/
theorem verifyMerkleProof_path (leaf root : Hash) (path : List (Hash × Bool)) :
    verifyMerkleProof leaf root (path.flatMap levelBytes) = true ↔
      path ≠ [] ∧ climb hashChildren leaf path = root := by
  have whole : (path.flatMap levelBytes).length % 33 = 0 := by
    rw [proof_length]
    omega
  have levels : (path.flatMap levelBytes).length / 33 = path.length := by
    rw [proof_length]
    omega
  have empty : (path.flatMap levelBytes).isEmpty = true ↔ path = [] := by
    rw [List.isEmpty_iff_length_eq_zero, proof_length, ← List.length_eq_zero_iff]
    omega
  unfold verifyMerkleProof
  by_cases none_ : path = []
  · rw [if_pos (.inl (empty.mpr none_))]
    simp [none_]
  · have passes : ¬ ((path.flatMap levelBytes).isEmpty = true ∨
        (path.flatMap levelBytes).length % 33 ≠ 0) :=
      fun refused => refused.elim (fun isEmpty => none_ (empty.mp isEmpty)) fun ragged => ragged whole
    rw [if_neg passes, levels, climbLevels_path, and_iff_right none_, decide_eq_true_iff]

theorem requestExit_accepts_iff {chain : PlasmaChain} {request : ExitRequest} {block : PlasmaBlock}
    (stored : chain.getBlock request.plasmaBlockNumber = some block) :
    (chain.requestExit request).1 = true ↔
      verifyMerkleProof request.txHash block.merkleRoot request.merkleProof = true := by
  unfold PlasmaChain.requestExit
  rw [stored]
  cases verified : verifyMerkleProof request.txHash block.merkleRoot request.merkleProof with
  | false => simp [verified]
  | true => simp [verified]

/-- The path of a transaction proves it, and an exit with that proof is accepted on any
chain that has a block with the root. -/
structure CanExit (txHashes : List Hash) (index : Nat) (inside : index < txHashes.length) : Prop where
  proved : verifyMerkleProof txHashes[index] (buildMerkleRoot txHashes)
    (inclusionProof txHashes index) = true
  accepted : ∀ (chain : PlasmaChain) (request : ExitRequest) (block : PlasmaBlock),
    chain.getBlock request.plasmaBlockNumber = some block →
      block.merkleRoot = buildMerkleRoot txHashes → request.txHash = txHashes[index] →
        request.merkleProof = inclusionProof txHashes index → (chain.requestExit request).1 = true

theorem inclusionProof_verifies_iff {txHashes : List Hash} {index : Nat}
    (inside : index < txHashes.length) :
    verifyMerkleProof txHashes[index] (buildMerkleRoot txHashes) (inclusionProof txHashes index) =
      true ↔ 2 ≤ txHashes.length := by
  rw [inclusionProof, verifyMerkleProof_path, ne_eq,
    siblingPath_eq_nil_iff hashChildren inside,
    climb_siblingPath hashChildren zeroHash inside, buildMerkleRoot, and_iff_left rfl]
  omega

/-- A transaction can exit exactly when it is not alone in its block. -/
theorem canExit_iff {txHashes : List Hash} {index : Nat} (inside : index < txHashes.length) :
    CanExit txHashes index inside ↔ 2 ≤ txHashes.length := by
  refine ⟨fun can => (inclusionProof_verifies_iff inside).mp can.proved, fun several => ?_⟩
  have proved := (inclusionProof_verifies_iff inside).mpr several
  refine ⟨proved, fun chain request block stored isRoot isTx isProof => ?_⟩
  rw [requestExit_accepts_iff stored, isRoot, isTx, isProof]
  exact proved

/-- Two transactions of one block can exit. -/
theorem pair_canExit :
    CanExit [zeroHash, zeroHash] 0 (by decide) ∧ CanExit [zeroHash, zeroHash] 1 (by decide) :=
  ⟨(canExit_iff (by decide)).mpr (by decide), (canExit_iff (by decide)).mpr (by decide)⟩

/-- The only transaction of a block cannot exit. -/
theorem single_cannot_exit : ¬ CanExit [zeroHash] 0 (by decide) :=
  fun can => absurd can.proved (by decide)

end Parthenon.Plasma
