import Parthenon.Evm.StateRoots

namespace Parthenon.Evm

open Library Crypto Std

/-! # What the state root commits to

Equal roots have equal accounts, and equal storage below every account.  Storage
of an address without an account is in no root.
-/

namespace MerklePatriciaTrie.Node

/-- The encodings hashed below a node and at it. -/
def encodings : Node → List Bytes
  | extension path held child => encodeNode (extension path held child) :: child.encodings
  | branch value children =>
      encodeNode (branch value children) ::
        (List.finRange 16).flatMap fun nibble => (children nibble).encodings
  | node => [encodeNode node]

theorem encodeNode_mem (node : Node) : node.encodeNode ∈ node.encodings := by
  cases node with
  | null => exact List.mem_cons_self
  | empty => exact List.mem_cons_self
  | leaf => exact List.mem_cons_self
  | extension => exact List.mem_cons_self
  | childless => exact List.mem_cons_self
  | branch => exact List.mem_cons_self

theorem child_encodings {value : Value} {children : Nibble → Node} {nibble : Nibble}
    {encoding : Bytes} (below : encoding ∈ (children nibble).encodings) :
    encoding ∈ (branch value children).encodings :=
  List.mem_cons_of_mem _ (List.mem_flatMap.mpr ⟨nibble, List.mem_finRange nibble, below⟩)

theorem encodeValue_eq (value : Value) : encodeValue value =
    UInt8.ofNat (value.length >>> 8) :: UInt8.ofNat (value.length &&& 0xFF) :: value := by
  cases value with
  | nil => rfl
  | cons => rfl

theorem encodePath_append_inj {left right : List Nibble} (leftShort : left.length < 256)
    (rightShort : right.length < 256) {leftRest rightRest : Bytes}
    (same : encodePath left ++ leftRest = encodePath right ++ rightRest) :
    left = right ∧ leftRest = rightRest := by
  rw [encodePath, encodePath, List.cons_append, List.cons_append, List.cons.injEq] at same
  obtain ⟨sizes, rest⟩ := same
  have lengths : left.length = right.length := by
    have sizes := congrArg UInt8.toNat sizes
    rwa [UInt8.toNat_ofNat_of_lt' leftShort, UInt8.toNat_ofNat_of_lt' rightShort] at sizes
  obtain ⟨paths, rests⟩ := List.append_inj rest (by simp [lengths])
  refine ⟨List.map_injective_iff.mpr ?_ paths, rests⟩
  intro first second same
  have values : (UInt8.ofNat first.val).toNat = (UInt8.ofNat second.val).toNat :=
    congrArg UInt8.toNat same
  have small (nibble : Nibble) : nibble.val < UInt8.size := Nat.lt_trans nibble.isLt (by decide)
  rw [UInt8.toNat_ofNat_of_lt' (small first), UInt8.toNat_ofNat_of_lt' (small second)] at values
  exact Fin.ext values

theorem encodeValue_inj {left right : Value} (same : encodeValue left = encodeValue right) :
    left = right := by
  rw [encodeValue_eq, encodeValue_eq] at same
  exact (List.cons.inj (List.cons.inj same).2).2

theorem encodeNode_branch (value : Value) (children : Nibble → Node) :
    (branch value children).encodeNode =
      3 :: encodeValue value ++
        (List.finRange 16).flatMap fun nibble => (children nibble).hashNode.bytes := rfl

theorem encodeNode_extension (path : List Nibble) (held : Value) {child : Node}
    (present : child.isNull = false) : (extension path held child).encodeNode =
      2 :: encodePath path ++ encodeValue held ++ child.hashNode.bytes := by
  rw [encodeNode, present]
  rfl

theorem isEmpty_of_encodeNode {node : Node} (nothing : node.encodeNode = []) :
    node.isEmpty = true := by
  cases node with
  | null => rfl
  | empty => rfl
  | leaf => cases nothing
  | extension => cases nothing
  | childless => cases nothing
  | branch => cases nothing

theorem Shaped.entries_of_hash {compact : Bool} {node other : Node} {left : Nat}
    (shaped : node.Shaped compact left) (otherShaped : other.Shaped compact left)
    (short : left < 256)
    (injective : ∀ mine ∈ node.encodings, ∀ its ∈ other.encodings,
      hashEncoded mine = hashEncoded its → mine = its)
    (same : node.hashNode = other.hashNode) : node.entries = other.entries := by
  have encoded := injective _ node.encodeNode_mem _ other.encodeNode_mem same
  induction node generalizing other left with
  | null => rw [entries_of_isEmpty (isEmpty_of_encodeNode encoded.symm), entries]
  | empty => rw [entries_of_isEmpty (isEmpty_of_encodeNode encoded.symm), entries]
  | leaf path value =>
      cases other with
      | null => cases encoded
      | empty => cases encoded
      | leaf otherPath otherValue =>
          obtain ⟨paths, values⟩ := encodePath_append_inj (shaped.1 ▸ short) (otherShaped.1 ▸ short)
            (List.cons.inj encoded).2
          rw [paths, encodeValue_inj values]
      | extension => cases encoded
      | childless => exact otherShaped.elim
      | branch => cases encoded
  | extension path held child ih =>
      cases other with
      | null => cases encoded
      | empty => cases encoded
      | leaf => cases encoded
      | extension otherPath otherHeld otherChild =>
          obtain ⟨-, rfl, isBranch, below, rfl, childShaped⟩ := shaped
          obtain ⟨-, rfl, otherIsBranch, otherBelow, lengths, otherChildShaped⟩ := otherShaped
          rw [encodeNode_extension path [] (isNull_of_present (isEmpty_of_isBranch isBranch)),
            encodeNode_extension otherPath [] (isNull_of_present (isEmpty_of_isBranch otherIsBranch)),
            List.append_assoc, List.append_assoc, List.cons_append, List.cons_append] at encoded
          obtain ⟨rfl, rest⟩ := encodePath_append_inj (by omega) (by omega)
            (List.cons.inj encoded).2
          obtain rfl : below = otherBelow := Nat.add_left_cancel lengths
          have sameChild : child.hashNode = otherChild.hashNode :=
            FixedBytes.ext (List.append_cancel_left rest)
          have childInjective : ∀ mine ∈ child.encodings, ∀ its ∈ otherChild.encodings,
              hashEncoded mine = hashEncoded its → mine = its := fun mine mineIn its itsIn =>
            injective mine (List.mem_cons_of_mem _ mineIn) its (List.mem_cons_of_mem _ itsIn)
          rw [entries, entries, ih childShaped otherChildShaped (by omega) childInjective sameChild
            (childInjective _ child.encodeNode_mem _ otherChild.encodeNode_mem sameChild)]
      | childless => exact otherShaped.elim
      | branch => cases encoded
  | childless => exact shaped.elim
  | branch value children ih =>
      cases other with
      | null => cases encoded
      | empty => cases encoded
      | leaf => cases encoded
      | extension => cases encoded
      | childless => exact otherShaped.elim
      | branch otherValue otherChildren =>
          obtain ⟨rfl, -, below, rfl, each⟩ := shaped
          obtain ⟨rfl, -, otherBelow, lengths, otherEach⟩ := otherShaped
          obtain rfl : below = otherBelow := Nat.succ.inj lengths
          rw [encodeNode_branch, encodeNode_branch] at encoded
          have hashes := flatMap_eq_of_length (fun nibble => (children nibble).hashNode.length_eq)
            (fun nibble => (otherChildren nibble).hashNode.length_eq)
            (List.append_cancel_left encoded)
          rw [entries, entries]
          congr 1
          funext nibble
          have sameChild : (children nibble).hashNode = (otherChildren nibble).hashNode :=
            FixedBytes.ext (hashes nibble (List.mem_finRange nibble))
          have childInjective : ∀ mine ∈ (children nibble).encodings,
              ∀ its ∈ (otherChildren nibble).encodings,
              hashEncoded mine = hashEncoded its → mine = its := fun mine mineIn its itsIn =>
            injective mine (child_encodings mineIn) its (child_encodings itsIn)
          exact ih nibble (each nibble) (otherEach nibble) (by omega) childInjective sameChild
            (childInjective _ (children nibble).encodeNode_mem _ (otherChildren nibble).encodeNode_mem
              sameChild)

end MerklePatriciaTrie.Node

theorem MerklePatriciaTrie.Commits.map_eq {compact : Bool} {length : Nat}
    {first second : MerklePatriciaTrie} {firstMap secondMap : Bytes → Option Value}
    (firstCommits : Commits compact length first firstMap)
    (secondCommits : Commits compact length second secondMap) (short : 2 * length < 256)
    (injective : ∀ mine ∈ first.root.encodings, ∀ its ∈ second.root.encodings,
      Node.hashEncoded mine = Node.hashEncoded its → mine = its)
    (same : first.getRootHash = second.getRootHash) : firstMap = secondMap := by
  funext key
  rw [← firstCommits.holds.entries_eq, ← secondCommits.holds.entries_eq,
    firstCommits.shaped.entries_of_hash secondCommits.shaped short injective same]

theorem lookup_bytesOf (storage : Storage) (addr : Address) (key : Uint256) :
    (storage.bytesOf addr).lookup key.bytes =
      (storage[(⟨addr, key⟩ : StorageKey)]?).map FixedBytes.bytes := by
  ext bytes
  rw [lookup_eq_some_iff_mem (bytesOf_distinct storage addr), Storage.bytesOf, List.mem_map,
    Option.map_eq_some_iff]
  constructor
  · rintro ⟨⟨⟨address, otherKey⟩, value⟩, member, same⟩
    obtain ⟨found, here⟩ := mem_ofAddress.mp member
    obtain ⟨sameKey, sameBytes⟩ := Prod.mk.inj same
    cases here
    cases FixedBytes.ext sameKey
    exact ⟨value, found, sameBytes⟩
  · rintro ⟨value, found, same⟩
    exact ⟨(⟨addr, key⟩, value), mem_ofAddress.mpr ⟨found, rfl⟩, by rw [← same]⟩

theorem lookup_accountEntries (accounts : Accounts) (storage : Storage) (addr : Address) :
    (accountEntries accounts storage).lookup addr.bytes =
      accounts[addr]?.map fun account =>
        WorldState.accountValue account (storageRoot storage addr) := by
  ext bytes
  rw [lookup_eq_some_iff_mem (accountEntries_distinct accounts storage), accountEntries,
    List.mem_map, Option.map_eq_some_iff]
  constructor
  · rintro ⟨⟨address, account⟩, member, same⟩
    obtain ⟨sameAddress, sameValue⟩ := Prod.mk.inj same
    cases FixedBytes.ext sameAddress
    exact ⟨account, ExtTreeMap.mem_toList_iff_getElem?_eq_some.mp member, sameValue⟩
  · rintro ⟨account, found, same⟩
    exact ⟨(addr, account), ExtTreeMap.mem_toList_iff_getElem?_eq_some.mpr found, by
      rw [← same]
      rfl⟩

theorem accountValue_inj {left right : AccountState} {leftRoot rightRoot : Hash}
    (same : WorldState.accountValue left leftRoot = WorldState.accountValue right rightRoot) :
    left.nonce = right.nonce ∧ left.balance = right.balance ∧ left.codeHash = right.codeHash ∧
      leftRoot = rightRoot := by
  obtain ⟨rest, roots⟩ := List.append_inj' same
    (leftRoot.length_eq.trans rightRoot.length_eq.symm)
  obtain ⟨rest, codes⟩ := List.append_inj' rest
    (left.codeHash.length_eq.trans right.codeHash.length_eq.symm)
  obtain ⟨nonces, balances⟩ := List.append_inj' rest
    (left.balance.length_eq.trans right.balance.length_eq.symm)
  refine ⟨UInt64.toNat_inj.mp (littleEndian_inj left.nonce.toNat_lt right.nonce.toNat_lt nonces),
    FixedBytes.ext balances, FixedBytes.ext codes, FixedBytes.ext roots⟩

namespace WorldState

/-- What is hashed for the root of a state when nothing is cached. -/
def hashedStrings (state : WorldState) : Set Bytes :=
  { encoding |
    (∃ trie, trieOf (accountEntries state.accounts state.storage) = some trie ∧
      encoding ∈ trie.root.encodings) ∨
    ∃ addr trie, state.accountExists addr = true ∧
      trieOf (state.storage.bytesOf addr) = some trie ∧ encoding ∈ trie.root.encodings }

def getCodeHash (state : WorldState) (addr : Address) : Option Hash :=
  (state.getAccount addr).map AccountState.codeHash

/-- The states cannot be told apart. -/
structure Agrees (left right : WorldState) : Prop where
  accountExists : ∀ addr, left.accountExists addr = right.accountExists addr
  nonce : ∀ addr, left.getNonce addr = right.getNonce addr
  balance : ∀ addr, left.getBalance addr = right.getBalance addr
  codeHash : ∀ addr, left.getCodeHash addr = right.getCodeHash addr
  storage : ∀ addr key, left.getStorage addr key = right.getStorage addr key

theorem accountExists_eq (state : WorldState) (addr : Address) :
    state.accountExists addr = state.accounts[addr]?.isSome := by
  rw [accountExists, ExtTreeMap.contains_eq_isSome_getElem?]

end WorldState

section Commitment

variable {left right : WorldState}
  (injective : ∀ mine ∈ left.hashedStrings, ∀ its ∈ right.hashedStrings,
    MerklePatriciaTrie.Node.hashEncoded mine = MerklePatriciaTrie.Node.hashEncoded its → mine = its)

include injective

theorem storage_of_root {addr : Address} (leftHas : left.accountExists addr = true)
    (rightHas : right.accountExists addr = true)
    (roots : storageRoot left.storage addr = storageRoot right.storage addr) (key : Uint256) :
    left.getStorage addr key = right.getStorage addr key := by
  obtain ⟨leftTrie, leftBuilt, leftCommits⟩ := storageTrie_commits left.storage addr
  obtain ⟨rightTrie, rightBuilt, rightCommits⟩ := storageTrie_commits right.storage addr
  rw [storageRoot_eq leftBuilt, storageRoot_eq rightBuilt] at roots
  have maps := leftCommits.map_eq rightCommits (by decide)
    (fun mine mineIn its itsIn =>
      injective mine (.inr ⟨addr, leftTrie, leftHas, leftBuilt, mineIn⟩) its
        (.inr ⟨addr, rightTrie, rightHas, rightBuilt, itsIn⟩)) roots
  have values := congrFun maps key.bytes
  rw [lookup_bytesOf, lookup_bytesOf] at values
  have found := Option.map_injective (fun _ _ => FixedBytes.ext) values
  rw [WorldState.getStorage, WorldState.getStorage, found]

theorem account_of_root
    (same : stateRoot left.accounts left.storage = stateRoot right.accounts right.storage)
    (addr : Address) :
    (left.accounts[addr]?.map fun account =>
        WorldState.accountValue account (storageRoot left.storage addr)) =
      right.accounts[addr]?.map fun account =>
        WorldState.accountValue account (storageRoot right.storage addr) := by
  obtain ⟨leftTrie, leftBuilt, leftCommits⟩ := accountTrie_commits left.accounts left.storage
  obtain ⟨rightTrie, rightBuilt, rightCommits⟩ := accountTrie_commits right.accounts right.storage
  rw [stateRoot_eq leftBuilt, stateRoot_eq rightBuilt] at same
  have maps := leftCommits.map_eq rightCommits (by decide)
    (fun mine mineIn its itsIn =>
      injective mine (.inl ⟨leftTrie, leftBuilt, mineIn⟩) its (.inl ⟨rightTrie, rightBuilt, itsIn⟩))
    same
  rw [← lookup_accountEntries, ← lookup_accountEntries]
  exact congrFun maps addr.bytes

/-- States with one root agree exactly when they agree on the storage of the
addresses that have an account in neither. -/
theorem agrees_of_root
    (same : stateRoot left.accounts left.storage = stateRoot right.accounts right.storage) :
    left.Agrees right ↔ ∀ addr, left.accountExists addr = false →
      right.accountExists addr = false → ∀ key, left.getStorage addr key = right.getStorage addr key := by
  refine ⟨fun agrees addr _ _ key => agrees.storage addr key, fun elsewhere => ?_⟩
  have account (addr : Address) : (left.accountExists addr = false ∧
      right.accountExists addr = false ∧ left.accounts[addr]? = none ∧
      right.accounts[addr]? = none) ∨
      ∃ mine its, left.accounts[addr]? = some mine ∧ right.accounts[addr]? = some its ∧
        WorldState.accountValue mine (storageRoot left.storage addr) =
          WorldState.accountValue its (storageRoot right.storage addr) := by
    have values := account_of_root injective same addr
    rw [WorldState.accountExists_eq, WorldState.accountExists_eq]
    cases mine : left.accounts[addr]? with
    | none =>
        cases its : right.accounts[addr]? with
        | none => exact .inl ⟨rfl, rfl, rfl, rfl⟩
        | some account => rw [mine, its] at values; cases values
    | some first =>
        cases its : right.accounts[addr]? with
        | none => rw [mine, its] at values; cases values
        | some second =>
            rw [mine, its] at values
            exact .inr ⟨first, second, rfl, rfl, Option.some.inj values⟩
  exact {
    accountExists := fun addr => by
      rcases account addr with ⟨mine, its, -, -⟩ | ⟨mine, its, leftFound, rightFound, -⟩
      · rw [mine, its]
      · rw [WorldState.accountExists_eq, WorldState.accountExists_eq, leftFound, rightFound]
        rfl
    nonce := fun addr => by
      rcases account addr with ⟨-, -, mine, its⟩ | ⟨mine, its, leftFound, rightFound, values⟩
      · simp [WorldState.getNonce, mine, its]
      · simp [WorldState.getNonce, leftFound, rightFound, (accountValue_inj values).1]
    balance := fun addr => by
      rcases account addr with ⟨-, -, mine, its⟩ | ⟨mine, its, leftFound, rightFound, values⟩
      · simp [WorldState.getBalance, mine, its]
      · simp [WorldState.getBalance, leftFound, rightFound, (accountValue_inj values).2.1]
    codeHash := fun addr => by
      rcases account addr with ⟨-, -, mine, its⟩ | ⟨mine, its, leftFound, rightFound, values⟩
      · simp [WorldState.getCodeHash, WorldState.getAccount, mine, its]
      · simp [WorldState.getCodeHash, WorldState.getAccount, leftFound, rightFound,
          (accountValue_inj values).2.2.1]
    storage := fun addr key => by
      rcases account addr with ⟨mine, its, -, -⟩ | ⟨mine, its, leftFound, rightFound, values⟩
      · exact elsewhere addr mine its key
      · apply storage_of_root injective _ _ (accountValue_inj values).2.2.2
        · rw [WorldState.accountExists_eq, leftFound]
          rfl
        · rw [WorldState.accountExists_eq, rightFound]
          rfl }

end Commitment

/-- Two states that are reached and whose calculated roots are equal agree exactly
when they agree on the storage of the addresses without an account. -/
theorem calculateStateRoot_commits {leftCalls rightCalls : List WorldCall} {left right : Session}
    (leftRun : Run Session.Step .fresh leftCalls left)
    (rightRun : Run Session.Step .fresh rightCalls right)
    (injective : ∀ mine ∈ left.state.hashedStrings, ∀ its ∈ right.state.hashedStrings,
      MerklePatriciaTrie.Node.hashEncoded mine = MerklePatriciaTrie.Node.hashEncoded its →
        mine = its)
    (same : left.state.calculateStateRoot.map Prod.fst =
      right.state.calculateStateRoot.map Prod.fst) :
    left.state.Agrees right.state ↔ ∀ addr, left.state.accountExists addr = false →
      right.state.accountExists addr = false →
        ∀ key, left.state.getStorage addr key = right.state.getStorage addr key := by
  obtain ⟨leftAfter, leftRoot, -⟩ := WorldState.calculateStateRoot_spec (run_valid leftRun).state
  obtain ⟨rightAfter, rightRoot, -⟩ := WorldState.calculateStateRoot_spec (run_valid rightRun).state
  rw [leftRoot, rightRoot] at same
  exact agrees_of_root injective (Option.some.inj same)

/-- One account with a balance. -/
def oneAccount : WorldState := WorldState.fresh.setBalance (.ofNat 20 1) (.ofNat 32 5)

def oneAccountLeaf : MerklePatriciaTrie.Node :=
  .leaf (MerklePatriciaTrie.toNibbles (FixedBytes.ofNat 20 1).bytes)
    (WorldState.accountValue { AccountState.fresh with balance := .ofNat 32 5 } zeroHash)

theorem oneAccount_entries : accountEntries oneAccount.accounts oneAccount.storage =
    [((FixedBytes.ofNat 20 1).bytes,
      WorldState.accountValue { AccountState.fresh with balance := .ofNat 32 5 } zeroHash)] := by
  decide +kernel

theorem oneAccount_hashed {encoding : Bytes} (hashed : encoding ∈ oneAccount.hashedStrings) :
    encoding = oneAccountLeaf.encodeNode ∨ encoding = [] := by
  rcases hashed with ⟨trie, built, member⟩ | ⟨addr, trie, -, built, member⟩
  · rw [oneAccount_entries] at built
    cases built
    exact .inl (List.mem_singleton.mp member)
  · cases built
    exact .inr (List.mem_singleton.mp member)

theorem oneAccountLeaf_hash :
    MerklePatriciaTrie.Node.hashEncoded oneAccountLeaf.encodeNode ≠ zeroHash := by
  decide +kernel

theorem calculateStateRoot_commits_oneAccount :
    oneAccount.Agrees oneAccount ↔ ∀ addr, oneAccount.accountExists addr = false →
      oneAccount.accountExists addr = false →
        ∀ key, oneAccount.getStorage addr key = oneAccount.getStorage addr key := by
  have run : Run Session.Step .fresh [.setBalance (.ofNat 20 1) (.ofNat 32 5)] ⟨oneAccount, []⟩ :=
    Run.start.step rfl
  refine calculateStateRoot_commits run run ?_ rfl
  intro mine mineIn its itsIn same
  rcases oneAccount_hashed mineIn with rfl | rfl
  · rcases oneAccount_hashed itsIn with rfl | rfl
    · rfl
    · exact absurd same oneAccountLeaf_hash
  · rcases oneAccount_hashed itsIn with rfl | rfl
    · exact absurd same.symm oneAccountLeaf_hash
    · rfl

/-- Storage written for an address without an account. -/
def orphanStorage : WorldState :=
  WorldState.fresh.setStorage (.ofNat 20 1) (.ofNat 32 1) (.ofNat 32 1)

theorem hashedStrings_without_accounts {state : WorldState} (nobody : state.accounts = ∅)
    {encoding : Bytes} (hashed : encoding ∈ state.hashedStrings) : encoding = [] := by
  rcases hashed with ⟨trie, built, member⟩ | ⟨addr, trie, has, -, -⟩
  · rw [accountEntries, nobody] at built
    cases built
    exact List.mem_singleton.mp member
  · rw [WorldState.accountExists_eq, nobody] at has
    simp at has

theorem orphanStorage_root :
    Run Session.Step .fresh [] .fresh ∧
      Run Session.Step .fresh [.setStorage (.ofNat 20 1) (.ofNat 32 1) (.ofNat 32 1)]
        ⟨orphanStorage, []⟩ ∧
      (∀ mine ∈ WorldState.fresh.hashedStrings, ∀ its ∈ orphanStorage.hashedStrings,
        MerklePatriciaTrie.Node.hashEncoded mine = MerklePatriciaTrie.Node.hashEncoded its →
          mine = its) ∧
      WorldState.fresh.calculateStateRoot.map Prod.fst =
        orphanStorage.calculateStateRoot.map Prod.fst ∧
      WorldState.fresh.getStorage (.ofNat 20 1) (.ofNat 32 1) ≠
        orphanStorage.getStorage (.ofNat 20 1) (.ofNat 32 1) := by
  refine ⟨.start, Run.start.step rfl, ?_, ?_, ?_⟩
  · intro mine mineIn its itsIn _
    rw [hashedStrings_without_accounts rfl mineIn, hashedStrings_without_accounts rfl itsIn]
  · obtain ⟨_, freshRoot, -⟩ := WorldState.calculateStateRoot_spec WorldState.fresh_valid
    obtain ⟨_, orphanRoot, -⟩ := WorldState.calculateStateRoot_spec
      (WorldState.setStorage_valid WorldState.fresh_valid (.ofNat 20 1) (.ofNat 32 1) (.ofNat 32 1))
    change _ = Option.map _ (WorldState.fresh.setStorage _ _ _).calculateStateRoot
    rw [freshRoot, orphanRoot]
    rfl
  · decide +kernel

end Parthenon.Evm
