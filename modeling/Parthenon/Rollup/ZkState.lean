import Parthenon.Crypto.Sha256Laws
import Parthenon.Library.OrderedMap
import Parthenon.Library.PairTree
import Mathlib.Data.List.Induction

namespace Parthenon.Rollup

open Library Crypto Std

/-! # State of the zero-knowledge rollup

Each transaction opens an account under its nullifier, with its commitment as the
balance.  The state root is a tree over the accounts in order.
-/

structure ZKTransaction where
  nullifier : Hash
  commitment : Hash
deriving DecidableEq, Repr

structure ZKRollupState where
  stateRoot : Hash
  balances : ExtTreeMap Bytes Hash compare
  usedNullifiers : ExtTreeMap Bytes Bool compare

def hashPair (left right : Hash) : Hash :=
  ((SHA256.reset.write left.bytes).write right.bytes).finalize.1

theorem hashPair_eq (left right : Hash) :
    hashPair left right = SHA256.hash256 (left.bytes ++ right.bytes) :=
  SHA256.finalize_write_write left.bytes right.bytes

def hashAccount (account : Bytes) : Hash := SHA256.hash256 account

def computeMerkleRoot (leaves : List Hash) : Hash := pairRoot hashPair zeroHash leaves

/-- Each sibling comes with whether it is on the right. -/
def buildMerkleProof (leaves : List Hash) (index : Nat) : List (Hash × Bool) :=
  if leaves.isEmpty ∨ index ≥ leaves.length then [] else siblingPath hashPair leaves index

namespace ZKRollupState

def new : ZKRollupState where
  stateRoot := zeroHash
  balances := ∅
  usedNullifiers := ∅

variable (state : ZKRollupState)

def getStateRoot : Hash := state.stateRoot

def getBalance (account : Bytes) : Option Hash := state.balances[account]?

def leaves : List Hash := state.balances.keys.map hashAccount

/-- The leaves are the accounts.  Their balances are not hashed. -/
def applyTransaction (tx : ZKTransaction) : Bool × ZKRollupState :=
  if state.usedNullifiers.getD tx.nullifier.bytes false then (false, state)
  else
    let credited :=
      { state with
        usedNullifiers := state.usedNullifiers.insert tx.nullifier.bytes true
        balances := state.balances.insert tx.nullifier.bytes tx.commitment }
    (true, { credited with stateRoot := computeMerkleRoot credited.leaves })

def getMerkleProof (account : Bytes) : List (Hash × Bool) :=
  if account.isEmpty then []
  else
    match state.balances.keys.findIdx? (· == account) with
    | none => []
    | some index => buildMerkleProof state.leaves index

def verifyMerkleProof (account : Bytes) (proof : List (Hash × Bool)) (root : Hash) : Bool :=
  if account.isEmpty then false
  else climb hashPair (hashAccount account) proof = root

/-- A sequence of transactions, those that fail included. -/
def applyAll (transactions : List ZKTransaction) : ZKRollupState :=
  transactions.foldl (fun state tx => (state.applyTransaction tx).2) new

theorem applyAll_concat (transactions : List ZKTransaction) (tx : ZKTransaction) :
    applyAll (transactions ++ [tx]) = ((applyAll transactions).applyTransaction tx).2 := by
  rw [applyAll, List.foldl_append]
  rfl

/-! ## What transactions leave behind -/

/-- The commitment of the first transaction under an account's nullifier. -/
def firstCommitment (transactions : List ZKTransaction) (account : Bytes) : Option Hash :=
  (transactions.find? fun tx => tx.nullifier.bytes == account).map ZKTransaction.commitment

theorem firstCommitment_concat (transactions : List ZKTransaction) (tx : ZKTransaction)
    (account : Bytes) :
    firstCommitment (transactions ++ [tx]) account =
      (firstCommitment transactions account).or
        (if tx.nullifier.bytes = account then some tx.commitment else none) := by
  unfold firstCommitment
  rw [List.find?_append]
  cases transactions.find? fun tx => tx.nullifier.bytes == account with
  | some earlier => rfl
  | none =>
      by_cases same : tx.nullifier.bytes = account
      · simp [same]
      · simp [same]

/-- A state that a sequence of transactions reached. -/
structure Reached (transactions : List ZKTransaction) : Prop where
  balance : ∀ account, state.balances[account]? = firstCommitment transactions account
  used : ∀ account, state.usedNullifiers.getD account false = state.balances[account]?.isSome
  width : ∀ account, account ∈ state.balances.keys → account.length = 32
  root : state.stateRoot = computeMerkleRoot state.leaves

theorem new_reached : new.Reached [] where
  balance := fun account => ExtTreeMap.getElem?_empty
  used := fun account => by
    rw [new, ExtTreeMap.getElem?_empty]
    exact ExtTreeMap.getD_empty
  width := fun account listed => by simp [new] at listed
  root := by
    have none : new.leaves = [] := by
      rw [leaves, new, ExtTreeMap.keys_eq_nil_iff.mpr rfl]
      rfl
    rw [none]
    rfl

theorem Reached.applyTransaction {state : ZKRollupState} {transactions : List ZKTransaction}
    (reached : state.Reached transactions) (tx : ZKTransaction) :
    (state.applyTransaction tx).2.Reached (transactions ++ [tx]) := by
  unfold ZKRollupState.applyTransaction
  by_cases spent : state.usedNullifiers.getD tx.nullifier.bytes false = true
  · rw [if_pos spent]
    refine { reached with balance := fun account => ?_ }
    rw [firstCommitment_concat, ← reached.balance]
    rw [reached.used] at spent
    obtain ⟨balance, found⟩ := Option.isSome_iff_exists.mp spent
    by_cases same : tx.nullifier.bytes = account
    · rw [← same, found]
      rfl
    · rw [if_neg same, Option.or_none]
  · rw [if_neg spent]
    have fresh : state.balances[tx.nullifier.bytes]? = none := by
      rw [reached.used] at spent
      exact Option.not_isSome_iff_eq_none.mp spent
    refine
      { balance := fun account => ?_
        used := fun account => ?_
        width := fun account listed => ?_
        root := rfl }
    · dsimp only
      rw [firstCommitment_concat, ← reached.balance, getElem?_insert_eq]
      by_cases same : tx.nullifier.bytes = account
      · rw [if_pos same, if_pos same, ← same, fresh]
        rfl
      · rw [if_neg same, if_neg same, Option.or_none]
    · dsimp only
      rw [getD_insert_eq, getElem?_insert_eq]
      by_cases same : tx.nullifier.bytes = account
      · rw [if_pos same, if_pos same]
        rfl
      · rw [if_neg same, if_neg same]
        exact reached.used account
    · dsimp only at listed
      rw [ExtTreeMap.mem_keys, ExtTreeMap.mem_insert] at listed
      rcases listed with same | earlier
      · rw [← compare_eq_iff_eq.mp same]
        exact tx.nullifier.length_eq
      · exact reached.width account (ExtTreeMap.mem_keys.mpr earlier)

theorem applyAll_reached (transactions : List ZKTransaction) :
    (applyAll transactions).Reached transactions := by
  induction transactions using List.reverseRecOn with
  | nil => exact new_reached
  | append_singleton transactions tx ih =>
      rw [applyAll_concat]
      exact ih.applyTransaction tx

/-! ## Proofs -/

/-- The proof that a state gives for an account is accepted against its root. -/
theorem verifyMerkleProof_getMerkleProof (transactions : List ZKTransaction) (account : Bytes)
    (held : ((applyAll transactions).getBalance account).isSome) :
    verifyMerkleProof account ((applyAll transactions).getMerkleProof account)
      (applyAll transactions).getStateRoot = true := by
  have reached := applyAll_reached transactions
  generalize applyAll transactions = state at reached held
  have listed : account ∈ state.balances.keys :=
    ExtTreeMap.mem_keys.mpr (ExtTreeMap.mem_iff_isSome_getElem?.mpr held)
  have width := reached.width account listed
  have nonempty : account.isEmpty = false := by
    cases account with
    | nil => simp at width
    | cons => rfl
  unfold verifyMerkleProof getMerkleProof
  rw [nonempty]
  cases position : state.balances.keys.findIdx? (· == account) with
  | none =>
      have elsewhere := List.findIdx?_eq_none_iff.mp position account listed
      simp at elsewhere
  | some index =>
      obtain ⟨inside, isAccount, _⟩ := List.findIdx?_eq_some_iff_getElem.mp position
      have insideLeaves : index < state.leaves.length := by
        rw [leaves, List.length_map]
        exact inside
      have leaf : state.leaves[index] = hashAccount account := by
        simp only [leaves, List.getElem_map]
        rw [eq_of_beq isAccount]
      have someLeaves : ¬ (state.leaves.isEmpty = true ∨ index ≥ state.leaves.length) := by
        rw [List.isEmpty_iff_length_eq_zero]
        omega
      have climbed := climb_siblingPath hashPair zeroHash insideLeaves
      rw [leaf] at climbed
      simp only [Bool.false_eq_true, if_false, buildMerkleProof, if_neg someLeaves, climbed,
        decide_eq_true_eq]
      exact reached.root.symm

/-- Three accounts, so that the last leaf is paired with itself. -/
def threeTransactions : List ZKTransaction :=
  [⟨.ofNat 32 1, .ofNat 32 11⟩, ⟨.ofNat 32 2, .ofNat 32 12⟩, ⟨.ofNat 32 3, .ofNat 32 13⟩]

theorem verifyMerkleProof_threeTransactions :
    verifyMerkleProof (littleEndian 32 3)
      ((applyAll threeTransactions).getMerkleProof (littleEndian 32 3))
      (applyAll threeTransactions).getStateRoot = true :=
  verifyMerkleProof_getMerkleProof threeTransactions (littleEndian 32 3) (by
    have balance := (applyAll_reached threeTransactions).balance (littleEndian 32 3)
    have third : firstCommitment threeTransactions (littleEndian 32 3) = some (.ofNat 32 13) := by
      decide
    rw [getBalance, balance, third]
    rfl)

end ZKRollupState

end Parthenon.Rollup
