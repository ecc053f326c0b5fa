import Parthenon.Rollup.ZkState

namespace Parthenon.Rollup

open Library Crypto Std

/-! # What the state root binds

Where SHA256 has no collision, two roots over accounts are equal exactly when the
accounts are.  The balances of the accounts are not bound.
-/

namespace ZKRollupState

/-- The distinct nullifiers, in order. -/
def accountsOf (transactions : List ZKTransaction) : List Bytes :=
  ((transactions.map fun tx => tx.nullifier.bytes).foldl (fun accounts account =>
    accounts.insert account ()) (∅ : ExtTreeMap Bytes Unit compare)).keys

theorem mem_accountsOf {transactions : List ZKTransaction} {account : Bytes} :
    account ∈ accountsOf transactions ↔
      account ∈ transactions.map fun tx => tx.nullifier.bytes := by
  rw [accountsOf, ExtTreeMap.mem_keys, ExtTreeMap.mem_iff_isSome_getElem?, getElem?_foldl_insert]
  by_cases listed : account ∈ transactions.map fun tx => tx.nullifier.bytes
  · rw [if_pos listed]
    exact ⟨fun _ => listed, fun _ => rfl⟩
  · rw [if_neg listed, ExtTreeMap.getElem?_empty]
    exact ⟨fun held => absurd held (by simp), fun there => absurd there listed⟩

theorem accountsOf_nodup (transactions : List ZKTransaction) : (accountsOf transactions).Nodup :=
  ExtTreeMap.nodup_keys

theorem accountsOf_eq_nil_iff {transactions : List ZKTransaction} :
    accountsOf transactions = [] ↔ transactions = [] := by
  rw [List.eq_nil_iff_forall_not_mem]
  simp only [mem_accountsOf]
  rw [← List.eq_nil_iff_forall_not_mem, List.map_eq_nil_iff]

theorem length_of_mem_accountsOf {transactions : List ZKTransaction} {account : Bytes}
    (listed : account ∈ accountsOf transactions) : account.length = 32 := by
  obtain ⟨tx, _, rfl⟩ := List.mem_map.mp (mem_accountsOf.mp listed)
  exact tx.nullifier.length_eq

theorem mem_accountsOf_iff_isSome {transactions : List ZKTransaction} {account : Bytes} :
    account ∈ accountsOf transactions ↔ (firstCommitment transactions account).isSome = true := by
  rw [mem_accountsOf, firstCommitment, Option.isSome_map, List.find?_isSome, List.mem_map]
  simp only [beq_iff_eq]

theorem keys_applyAll (transactions : List ZKTransaction) :
    (applyAll transactions).balances.keys = accountsOf transactions := by
  apply keys_eq
  intro account
  rw [(applyAll_reached transactions).balance, Bool.eq_iff_iff, ← mem_accountsOf_iff_isSome,
    accountsOf, ExtTreeMap.mem_keys, ExtTreeMap.mem_iff_isSome_getElem?]

def nullifierLeaves (transactions : List ZKTransaction) : List Hash :=
  (accountsOf transactions).map hashAccount

def nullifierRoot (transactions : List ZKTransaction) : Hash :=
  computeMerkleRoot (nullifierLeaves transactions)

theorem getStateRoot_applyAll (transactions : List ZKTransaction) :
    (applyAll transactions).getStateRoot = nullifierRoot transactions := by
  rw [getStateRoot, (applyAll_reached transactions).root, leaves, keys_applyAll]
  rfl

theorem getBalance_applyAll (transactions : List ZKTransaction) (account : Bytes) :
    (applyAll transactions).getBalance account = firstCommitment transactions account :=
  (applyAll_reached transactions).balance account

/-! ## Without collisions -/

/-- Every string hashed for the root. -/
def hashedStrings (transactions : List ZKTransaction) : List Bytes :=
  accountsOf transactions ++
    (combinedPairs hashPair (nullifierLeaves transactions)).map fun pair =>
      pair.1.bytes ++ pair.2.bytes

/-- SHA256 is injective on the strings hashed for both roots. -/
def CollisionFree (first second : List ZKTransaction) : Prop :=
  Set.InjOn SHA256.hash256
    (fun string => string ∈ hashedStrings first ∨ string ∈ hashedStrings second)

theorem CollisionFree.symm {first second : List ZKTransaction} (free : CollisionFree first second) :
    CollisionFree second first := fun _ member _ memberOther same =>
  free member.symm memberOther.symm same

theorem pairs_hashed {transactions : List ZKTransaction} {pair : Hash × Hash}
    (combined : pair ∈ combinedPairs hashPair (nullifierLeaves transactions)) :
    pair.1.bytes ++ pair.2.bytes ∈ hashedStrings transactions :=
  List.mem_append_right _ (List.mem_map.mpr ⟨pair, combined, rfl⟩)

theorem account_hashed {transactions : List ZKTransaction} {account : Bytes}
    (listed : account ∈ accountsOf transactions) : account ∈ hashedStrings transactions :=
  List.mem_append_left _ listed

theorem nullifierLeaves_nodup {first second : List ZKTransaction}
    (free : CollisionFree first second) : (nullifierLeaves first).Nodup :=
  List.Nodup.map_on
    (fun _ listed _ listedOther same =>
      free (.inl (account_hashed listed)) (.inl (account_hashed listedOther)) same)
    (accountsOf_nodup first)

/-- The root of some accounts determines them. -/
theorem accountsOf_eq_of_root_eq {first second : List ZKTransaction}
    (free : CollisionFree first second) (firstSome : first ≠ []) (secondSome : second ≠ [])
    (same : nullifierRoot first = nullifierRoot second) : accountsOf first = accountsOf second := by
  let pairs : Set (Hash × Hash) := fun pair =>
    pair ∈ combinedPairs hashPair (nullifierLeaves first) ∨
      pair ∈ combinedPairs hashPair (nullifierLeaves second)
  have hashed : ∀ pair ∈ pairs, pair.1.bytes ++ pair.2.bytes ∈ hashedStrings first ∨
      pair.1.bytes ++ pair.2.bytes ∈ hashedStrings second := by
    intro pair member
    rcases member with inFirst | inSecond
    · exact .inl (pairs_hashed inFirst)
    · exact .inr (pairs_hashed inSecond)
  have injective : Set.InjOn (fun pair : Hash × Hash => hashPair pair.1 pair.2) pairs := by
    intro pair member other memberOther sameHash
    simp only [hashPair_eq] at sameHash
    have sameBytes := free (hashed pair member) (hashed other memberOther) sameHash
    have lengths : pair.1.bytes.length = other.1.bytes.length := by
      rw [pair.1.length_eq, other.1.length_eq]
    obtain ⟨left, right⟩ := List.append_inj sameBytes lengths
    exact Prod.ext (FixedBytes.ext left) (FixedBytes.ext right)
  have nonempty : ∀ transactions : List ZKTransaction, transactions ≠ [] →
      nullifierLeaves transactions ≠ [] := by
    intro transactions some_ none
    exact some_ (accountsOf_eq_nil_iff.mp (List.map_eq_nil_iff.mp none))
  -- an account is half as long as a pair of nodes
  have apart : ∀ leaf, leaf ∈ nullifierLeaves first ∨ leaf ∈ nullifierLeaves second →
      ∀ pair ∈ pairs, leaf ≠ hashPair pair.1 pair.2 := by
    intro leaf member pair isPair
    obtain ⟨account, width, isHashed, rfl⟩ : ∃ account : Bytes, account.length = 32 ∧
        (account ∈ hashedStrings first ∨ account ∈ hashedStrings second) ∧
          hashAccount account = leaf := by
      rcases member with inFirst | inSecond
      · obtain ⟨account, listed, isLeaf⟩ := List.mem_map.mp inFirst
        exact ⟨account, length_of_mem_accountsOf listed, .inl (account_hashed listed), isLeaf⟩
      · obtain ⟨account, listed, isLeaf⟩ := List.mem_map.mp inSecond
        exact ⟨account, length_of_mem_accountsOf listed, .inr (account_hashed listed), isLeaf⟩
    rw [hashPair_eq]
    intro sameHash
    have sameString := free isHashed (hashed pair isPair) sameHash
    have lengths := congrArg List.length sameString
    rw [List.length_append, pair.1.length_eq, pair.2.length_eq, width] at lengths
    omega
  have sameLeaves : nullifierLeaves first = nullifierLeaves second :=
    pairRoot_inj_of_nodup hashPair injective zeroHash (nonempty first firstSome)
      (nonempty second secondSome) (nullifierLeaves_nodup free) (nullifierLeaves_nodup free.symm)
      (fun _ member => .inl member) (fun _ member => .inr member) apart same
  exact map_inj_between (fun _ listed _ listedOther sameHash =>
    free (.inl (account_hashed listed)) (.inr (account_hashed listedOther)) sameHash) sameLeaves

/-! ## Balances -/

/-- Equal roots belong to equal balances. -/
def RootCommits (first second : List ZKTransaction) : Prop :=
  (applyAll first).getStateRoot = (applyAll second).getStateRoot →
    ∀ account, (applyAll first).getBalance account = (applyAll second).getBalance account

/-- What the accounts alone say of the balances. -/
structure BoundByAccounts (first second : List ZKTransaction) : Prop where
  sameAccounts :
    (∀ account, account ∈ accountsOf first ↔ account ∈ accountsOf second) →
      ∀ account, firstCommitment first account = firstCommitment second account
  firstEmpty : first = [] → second ≠ [] → nullifierRoot second ≠ zeroHash
  secondEmpty : second = [] → first ≠ [] → nullifierRoot first ≠ zeroHash

theorem root_eq_of_same_accounts {first second : List ZKTransaction}
    (same : ∀ account, account ∈ accountsOf first ↔ account ∈ accountsOf second) :
    nullifierRoot first = nullifierRoot second := by
  have sameKeys : accountsOf first = accountsOf second := by
    rw [← keys_applyAll, ← keys_applyAll]
    apply keys_eq
    intro account
    rw [(applyAll_reached first).balance, (applyAll_reached second).balance, Bool.eq_iff_iff,
      ← mem_accountsOf_iff_isSome, ← mem_accountsOf_iff_isSome]
    exact same account
  rw [nullifierRoot, nullifierRoot, nullifierLeaves, nullifierLeaves, sameKeys]

/-- Only the first transactions give an account no balance. -/
theorem balances_differ {transactions : List ZKTransaction} (some_ : transactions ≠ []) :
    ¬ ∀ account, firstCommitment [] account = firstCommitment transactions account := by
  intro agree
  obtain ⟨account, listed⟩ := List.exists_mem_of_ne_nil _ (mt accountsOf_eq_nil_iff.mp some_)
  have held := mem_accountsOf_iff_isSome.mp listed
  rw [← agree account] at held
  simp [firstCommitment] at held

/-- The root of two states commits to their balances exactly when their accounts do. -/
theorem root_commits_iff (first second : List ZKTransaction) (free : CollisionFree first second) :
    RootCommits first second ↔ BoundByAccounts first second := by
  unfold RootCommits
  rw [getStateRoot_applyAll, getStateRoot_applyAll]
  simp only [getBalance_applyAll]
  constructor
  · intro commits
    refine
      { sameAccounts := fun same => commits (root_eq_of_same_accounts same)
        firstEmpty := fun isEmpty some_ zero => ?_
        secondEmpty := fun isEmpty some_ zero => ?_ }
    · subst isEmpty
      exact balances_differ some_ (commits zero.symm)
    · subst isEmpty
      exact balances_differ some_ fun account => (commits zero account).symm
  · intro bound same
    by_cases firstSome : first = []
    · by_cases secondSome : second = []
      · rw [firstSome, secondSome]
        exact fun account => rfl
      · have zero := bound.firstEmpty firstSome secondSome
        rw [← same, firstSome] at zero
        exact absurd rfl zero
    · by_cases secondSome : second = []
      · have zero := bound.secondEmpty secondSome firstSome
        rw [same, secondSome] at zero
        exact absurd rfl zero
      · have sameKeys := accountsOf_eq_of_root_eq free firstSome secondSome same
        exact bound.sameAccounts fun account => by rw [sameKeys]

/-! ## One account, two balances -/

def opening (balance : Nat) : List ZKTransaction :=
  [{ nullifier := FixedBytes.ofNat 32 7, commitment := FixedBytes.ofNat 32 balance }]

theorem accountsOf_opening (balance : Nat) :
    accountsOf (opening balance) = [(FixedBytes.ofNat 32 7).bytes] := by
  apply List.perm_singleton.mp
  apply (List.perm_ext_iff_of_nodup (accountsOf_nodup _) (List.nodup_singleton _)).mpr
  intro account
  rw [mem_accountsOf]
  rfl

/-- One string is hashed. -/
theorem hashedStrings_opening (balance : Nat) :
    hashedStrings (opening balance) = [(FixedBytes.ofNat 32 7).bytes] := by
  rw [hashedStrings, nullifierLeaves, accountsOf_opening]
  rfl

theorem opening_collisionFree (first second : Nat) :
    CollisionFree (opening first) (opening second) := by
  unfold CollisionFree
  simp only [hashedStrings_opening, or_self, List.mem_singleton]
  rintro _ rfl _ rfl -
  rfl

theorem root_commits_iff_opening : RootCommits (opening 1) (opening 2) ↔
    BoundByAccounts (opening 1) (opening 2) :=
  root_commits_iff (opening 1) (opening 2) (opening_collisionFree 1 2)

theorem root_not_committing :
    ¬ ∀ first second : List ZKTransaction, CollisionFree first second → RootCommits first second := by
  intro law
  have commits := law (opening 1) (opening 2) (opening_collisionFree 1 2)
  unfold RootCommits at commits
  rw [getStateRoot_applyAll, getStateRoot_applyAll] at commits
  have sameRoot : nullifierRoot (opening 1) = nullifierRoot (opening 2) :=
    root_eq_of_same_accounts fun account => by rw [accountsOf_opening, accountsOf_opening]
  have agree := commits sameRoot (FixedBytes.ofNat 32 7).bytes
  rw [getBalance_applyAll, getBalance_applyAll] at agree
  revert agree
  decide

end ZKRollupState

end Parthenon.Rollup
