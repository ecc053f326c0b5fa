import Parthenon.Evm.MptShape
import Parthenon.Evm.State

namespace Parthenon.Evm

open Library Crypto Std

/-! # Roots and their caches

The root of a storage and of a whole state as functions of the data alone, and
the cached ones equal to them in every state that is reached.
-/

/-! ## Tries built from distinct keys -/

open MerklePatriciaTrie in
theorem put_each_commits {length : Nat} {entries : List (Bytes × Bytes)}
    (lengths : ∀ entry ∈ entries, entry.1.length = length) (some_ : ∀ entry ∈ entries, entry.2 ≠ [])
    (distinct : (entries.map Prod.fst).Nodup) {trie : MerklePatriciaTrie}
    {map : Bytes → Option Value} (commits : Commits false length trie map)
    (free : ∀ entry ∈ entries, map entry.1 = none) :
    ∃ after, entries.foldlM (fun trie entry => trie.put entry.1 entry.2) trie = some after ∧
      Commits false length after fun key => (entries.lookup key).or (map key) := by
  induction entries generalizing trie map with
  | nil => exact ⟨trie, rfl, commits⟩
  | cons entry rest ih =>
      obtain ⟨key, value⟩ := entry
      obtain ⟨newKey, distinctRest⟩ := List.nodup_cons.mp distinct
      have others : ∀ other ∈ rest, other.1 ≠ key := fun other member same =>
        newKey (List.mem_map.mpr ⟨other, member, same⟩)
      have keyLength := lengths _ List.mem_cons_self
      have nibbles : (toNibbles key).length = 2 * length := by rw [toNibbles_length, keyLength]
      have missing : trie.root.entries (toNibbles key) = none := by
        rw [commits.holds.entries_eq]
        exact free _ List.mem_cons_self
      obtain ⟨next, done, nextCommits⟩ := put_commits commits keyLength
        (commits.shaped.writeKeepsShape_of_missing nibbles missing) (some_ _ List.mem_cons_self)
      obtain ⟨after, restDone, afterCommits⟩ := ih
        (fun other member => lengths other (List.mem_cons_of_mem _ member))
        (fun other member => some_ other (List.mem_cons_of_mem _ member)) distinctRest nextCommits
        fun other member => by
          rw [Function.update_of_ne (others other member)]
          exact free other (List.mem_cons_of_mem _ member)
      refine ⟨after, ?_, ?_⟩
      · rw [List.foldlM_cons, done]
        exact restDone
      · convert afterCommits using 2 with other
        rw [Function.update_apply, List.lookup_cons]
        by_cases same : other = key
        · have gone : rest.lookup key = none := by
            rw [List.lookup_eq_none_iff]
            intro entry member
            exact bne_iff_ne.mpr (others entry member).symm
          simp [same, gone]
        · simp [same, beq_eq_false_iff_ne.mpr same]

/-- Distinct keys of one length make a trie that holds them. -/
theorem trieOf_commits {length : Nat} {entries : List (Bytes × Bytes)}
    (lengths : ∀ entry ∈ entries, entry.1.length = length) (some_ : ∀ entry ∈ entries, entry.2 ≠ [])
    (distinct : (entries.map Prod.fst).Nodup) :
    ∃ trie, trieOf entries = some trie ∧
      MerklePatriciaTrie.Commits false length trie fun key => entries.lookup key := by
  obtain ⟨trie, done, commits⟩ := put_each_commits lengths some_ distinct
    (MerklePatriciaTrie.Commits.fresh false length) fun _ _ => rfl
  refine ⟨trie, done, ?_⟩
  simpa using commits

/-! ## The storage of an account -/

theorem compare_storageKey (left right : StorageKey) : compare left right =
    (compare left.address right.address).then (compare left.key right.key) := rfl

theorem zero_le_bytes (bytes : Bytes) :
    compare bytes (List.replicate bytes.length 0) ≠ .lt := by
  induction bytes with
  | nil => exact nofun
  | cons byte bytes ih =>
      rw [List.length_cons, List.replicate_succ, List.compare_cons_cons]
      cases first : compare byte 0 with
      | lt =>
          simp only [compare, compareOfLessAndEq, UInt8.not_lt_zero, if_false] at first
          split at first
          · cases first
          · cases first
      | eq => exact ih
      | gt => exact nofun

theorem zero_le (array : Uint256) : compare array (.zero 32) ≠ .lt := by
  have least := zero_le_bytes array.bytes
  rwa [array.length_eq] at least

theorem toList_sorted (storage : Storage) :
    storage.toList.Pairwise fun first second => compare first.1 second.1 = .lt :=
  ExtTreeMap.ordered_keys_toList

theorem ofAddress_eq (storage : Storage) (addr : Address) :
    storage.ofAddress addr = storage.toList.filter fun entry => entry.1.address == addr := by
  unfold Storage.ofAddress
  rw [scan_eq_filter (toList_sorted storage)]
  · apply List.filter_congr
    intro entry _
    by_cases here : entry.1.address = addr
    · have notBefore : compare entry.1 (⟨addr, .zero 32⟩ : StorageKey) ≠ .lt := by
        rw [compare_storageKey, here, Std.compare_self]
        exact zero_le entry.1.key
      simp [here, notBefore]
    · simp [here]
  · intro first second ordered before
    exact beq_iff_eq.mpr (TransCmp.lt_trans ordered (beq_iff_eq.mp before))
  · intro first second ordered notBefore inside
    rw [beq_iff_eq] at inside
    rw [beq_eq_false_iff_ne, compare_storageKey] at notBefore
    rw [compare_storageKey, inside] at ordered
    rw [beq_iff_eq]
    apply LawfulEqOrd.eq_of_compare
    cases addresses : compare first.1.address addr with
    | lt => rw [addresses] at notBefore; exact absurd rfl notBefore
    | eq => rfl
    | gt => rw [addresses] at ordered; cases ordered

theorem mem_ofAddress {storage : Storage} {addr : Address} {entry : StorageKey × Uint256} :
    entry ∈ storage.ofAddress addr ↔ storage[entry.1]? = some entry.2 ∧ entry.1.address = addr := by
  rw [ofAddress_eq, List.mem_filter, beq_iff_eq]
  exact and_congr_left' ExtTreeMap.mem_toList_iff_getElem?_eq_some

theorem ofAddress_sorted (storage : Storage) (addr : Address) :
    (storage.ofAddress addr).Pairwise fun first second => compare first.1 second.1 = .lt := by
  rw [ofAddress_eq]
  exact (toList_sorted storage).filter _

/-- The storage of an account is read off its own entries. -/
theorem ofAddress_congr {first second : Storage} {addr : Address}
    (same : ∀ key, first[(⟨addr, key⟩ : StorageKey)]? = second[(⟨addr, key⟩ : StorageKey)]?) :
    first.ofAddress addr = second.ofAddress addr := by
  have members : ∀ entry, entry ∈ first.ofAddress addr ↔ entry ∈ second.ofAddress addr := by
    intro entry
    obtain ⟨⟨address, key⟩, value⟩ := entry
    rw [mem_ofAddress, mem_ofAddress]
    apply and_congr_left
    intro here
    cases here
    rw [same]
  have nodup (storage : Storage) : (storage.ofAddress addr).Nodup := by
    rw [ofAddress_eq]
    exact (toList_nodup storage).filter _
  apply List.Perm.eq_of_pairwise _ (ofAddress_sorted first addr) (ofAddress_sorted second addr)
    ((List.perm_ext_iff_of_nodup (nodup first) (nodup second)).mpr members)
  intro left right _ _ ordered reversed
  exact absurd reversed (OrientedCmp.not_lt_of_lt ordered)

theorem bytesOf_lengths (storage : Storage) (addr : Address) :
    ∀ entry ∈ storage.bytesOf addr, entry.1.length = 32 := by
  intro entry member
  obtain ⟨source, -, rfl⟩ := List.mem_map.mp member
  exact source.1.key.length_eq

theorem bytesOf_some (storage : Storage) (addr : Address) :
    ∀ entry ∈ storage.bytesOf addr, entry.2 ≠ [] := by
  intro entry member
  obtain ⟨source, -, rfl⟩ := List.mem_map.mp member
  apply List.ne_nil_of_length_pos
  rw [source.2.length_eq]
  exact Nat.succ_pos 31

theorem bytesOf_distinct (storage : Storage) (addr : Address) :
    ((storage.bytesOf addr).map Prod.fst).Nodup := by
  rw [Storage.bytesOf, List.map_map]
  apply List.pairwise_map.mpr
  apply (ofAddress_sorted storage addr).imp_of_mem
  intro first second firstIn secondIn ordered same
  have sameKey : first.1 = second.1 :=
    StorageKey.ext ((mem_ofAddress.mp firstIn).2.trans (mem_ofAddress.mp secondIn).2.symm)
      (FixedBytes.ext same)
  rw [sameKey, Std.compare_self] at ordered
  cases ordered

/-- The root of an account's storage. -/
def storageRoot (storage : Storage) (addr : Address) : Hash :=
  ((trieOf (storage.bytesOf addr)).map MerklePatriciaTrie.getRootHash).getD zeroHash

theorem storageTrie_commits (storage : Storage) (addr : Address) :
    ∃ trie, trieOf (storage.bytesOf addr) = some trie ∧
      MerklePatriciaTrie.Commits false 32 trie fun key => (storage.bytesOf addr).lookup key :=
  trieOf_commits (bytesOf_lengths storage addr) (bytesOf_some storage addr)
    (bytesOf_distinct storage addr)

theorem storageRoot_eq {storage : Storage} {addr : Address} {trie : MerklePatriciaTrie}
    (built : trieOf (storage.bytesOf addr) = some trie) :
    storageRoot storage addr = trie.getRootHash := by
  rw [storageRoot, built]
  rfl

theorem storageRoot_congr {first second : Storage} {addr : Address}
    (same : ∀ key, first[(⟨addr, key⟩ : StorageKey)]? = second[(⟨addr, key⟩ : StorageKey)]?) :
    storageRoot first addr = storageRoot second addr := by
  rw [storageRoot, storageRoot, Storage.bytesOf, Storage.bytesOf, ofAddress_congr same]

/-! ## The accounts -/

/-- The keys and values of the trie of accounts. -/
def accountEntry (storage : Storage) (entry : Address × AccountState) : Bytes × Bytes :=
  (entry.1.bytes, WorldState.accountValue entry.2 (storageRoot storage entry.1))

def accountEntries (accounts : Accounts) (storage : Storage) : List (Bytes × Bytes) :=
  accounts.toList.map (accountEntry storage)

theorem accountEntries_distinct (accounts : Accounts) (storage : Storage) :
    ((accountEntries accounts storage).map Prod.fst).Nodup := by
  rw [accountEntries, List.map_map]
  apply List.pairwise_map.mpr
  apply accounts.distinct_keys_toList.imp
  intro first second differs same
  have sameKey : first.1 = second.1 := FixedBytes.ext same
  rw [sameKey] at differs
  exact differs Std.compare_self

theorem accountTrie_commits (accounts : Accounts) (storage : Storage) :
    ∃ trie, trieOf (accountEntries accounts storage) = some trie ∧
      MerklePatriciaTrie.Commits false 20 trie
        fun key => (accountEntries accounts storage).lookup key := by
  apply trieOf_commits _ _ (accountEntries_distinct accounts storage)
  · intro entry member
    obtain ⟨source, -, rfl⟩ := List.mem_map.mp member
    exact source.1.length_eq
  · intro entry member
    obtain ⟨source, -, rfl⟩ := List.mem_map.mp member
    simp [accountEntry, WorldState.accountValue, littleEndian]

/-- The root of the accounts and their storage. -/
def stateRoot (accounts : Accounts) (storage : Storage) : Hash :=
  ((trieOf (accountEntries accounts storage)).map MerklePatriciaTrie.getRootHash).getD zeroHash

theorem stateRoot_eq {accounts : Accounts} {storage : Storage} {trie : MerklePatriciaTrie}
    (built : trieOf (accountEntries accounts storage) = some trie) :
    stateRoot accounts storage = trie.getRootHash := by
  rw [stateRoot, built]
  rfl

/-! ## Caches -/

namespace WorldState

/-- A cached storage root that is not marked dirty is the root of the storage. -/
def StorageRootsValid (state : WorldState) : Prop :=
  ∀ addr root, state.storageRoots[addr]? = some root →
    state.dirtyStorageRoots.contains addr = false → root = storageRoot state.storage addr

/-- Every cached root that would be used is the one of the data. -/
structure CachesValid (state : WorldState) : Prop where
  storageRoots : state.StorageRootsValid
  stateRoot : state.stateRootDirty = false → ∀ root, state.cachedStateRoot = some root →
    root = Evm.stateRoot state.accounts state.storage

/-- Only cached storage roots differ, and they are valid. -/
structure Refreshed (state after : WorldState) : Prop where
  accounts : after.accounts = state.accounts
  storage : after.storage = state.storage
  valid : after.StorageRootsValid

theorem refreshed_put {state : WorldState} (valid : state.StorageRootsValid) (addr : Address) :
    state.Refreshed
      { state with
        storageRoots := state.storageRoots.insert addr (storageRoot state.storage addr)
        dirtyStorageRoots := state.dirtyStorageRoots.erase addr } where
  accounts := rfl
  storage := rfl
  valid other root cached clean := by
    rw [getElem?_insert_eq] at cached
    by_cases same : addr = other
    · rw [if_pos same] at cached
      cases cached
      rw [same]
    · rw [if_neg same] at cached
      apply valid other root cached
      simpa [ExtTreeSet.contains_erase, same] using clean

theorem calculateStorageRoot_spec {state : WorldState} (valid : state.StorageRootsValid)
    (addr : Address) :
    ∃ after, state.calculateStorageRoot addr = some (storageRoot state.storage addr, after) ∧
      state.Refreshed after := by
  obtain ⟨trie, built, -⟩ := storageTrie_commits state.storage addr
  have computed : (do
      let storageTrie ← trieOf (state.storage.bytesOf addr)
      let root := storageTrie.getRootHash
      some (root,
        { state with
          storageRoots := state.storageRoots.insert addr root
          dirtyStorageRoots := state.dirtyStorageRoots.erase addr })) =
      some (storageRoot state.storage addr,
        { state with
          storageRoots := state.storageRoots.insert addr (storageRoot state.storage addr)
          dirtyStorageRoots := state.dirtyStorageRoots.erase addr }) := by
    rw [built, storageRoot_eq built]
    rfl
  unfold calculateStorageRoot
  rw [computed]
  cases cached : state.storageRoots[addr]? with
  | none => exact ⟨_, rfl, refreshed_put valid addr⟩
  | some root =>
      cases dirty : state.dirtyStorageRoots.contains addr with
      | true => exact ⟨_, by simp, refreshed_put valid addr⟩
      | false =>
          refine ⟨state, ?_, rfl, rfl, valid⟩
          rw [valid addr root cached dirty]
          rfl

theorem Refreshed.trans {first second third : WorldState} (earlier : first.Refreshed second)
    (later : second.Refreshed third) : first.Refreshed third where
  accounts := later.accounts.trans earlier.accounts
  storage := later.storage.trans earlier.storage
  valid := later.valid

theorem putAccounts_spec {entries : List (Address × AccountState)} (trie : MerklePatriciaTrie)
    {built : MerklePatriciaTrie} {state : WorldState} (valid : state.StorageRootsValid)
    (builds : (entries.map (accountEntry state.storage)).foldlM
      (fun trie entry => trie.put entry.1 entry.2) trie = some built) :
    ∃ after, putAccounts entries trie state = some (built, after) ∧ state.Refreshed after := by
  induction entries generalizing trie state with
  | nil =>
      cases builds
      exact ⟨state, rfl, rfl, rfl, valid⟩
  | cons entry rest ih =>
      obtain ⟨addr, account⟩ := entry
      obtain ⟨next, calculated, refreshed⟩ := calculateStorageRoot_spec valid addr
      rw [List.map_cons, List.foldlM_cons] at builds
      obtain ⟨nextTrie, put_, builds⟩ := Option.bind_eq_some_iff.mp builds
      rw [← refreshed.storage] at builds
      obtain ⟨after, done, later⟩ := ih nextTrie refreshed.valid builds
      refine ⟨after, ?_, refreshed.trans later⟩
      rw [putAccounts, calculated]
      change (trie.put addr.bytes _ >>= _) = _
      rw [show trie.put addr.bytes (accountValue account (storageRoot state.storage addr)) =
        some nextTrie from put_]
      exact done

/-- The root of a state with valid caches is the root of its data. -/
theorem calculateStateRoot_spec {state : WorldState} (valid : state.CachesValid) :
    ∃ after, state.calculateStateRoot = some (Evm.stateRoot state.accounts state.storage, after) ∧
      after.accounts = state.accounts ∧ after.storage = state.storage ∧ after.CachesValid := by
  obtain ⟨trie, built, -⟩ := accountTrie_commits state.accounts state.storage
  obtain ⟨after, done, refreshed⟩ := putAccounts_spec .fresh valid.storageRoots built
  have computed : ∃ after, ((putAccounts state.accounts.toList .fresh state).bind fun put =>
      some (put.1.getRootHash,
        { put.2 with cachedStateRoot := some put.1.getRootHash, stateRootDirty := false })) =
        some (Evm.stateRoot state.accounts state.storage, after) ∧
      after.accounts = state.accounts ∧ after.storage = state.storage ∧ after.CachesValid := by
    rw [done, Option.bind_some, stateRoot_eq built]
    refine ⟨_, rfl, refreshed.accounts, refreshed.storage, refreshed.valid, ?_⟩
    intro _ root cached
    cases cached
    rw [← stateRoot_eq built, refreshed.accounts, refreshed.storage]
  unfold calculateStateRoot
  cases dirty : state.stateRootDirty with
  | true => exact computed
  | false =>
      cases cached : state.cachedStateRoot with
      | none => exact computed
      | some root =>
          refine ⟨state, ?_, rfl, rfl, valid⟩
          rw [valid.stateRoot dirty root cached]

theorem fresh_valid : fresh.CachesValid where
  storageRoots _ _ cached := absurd cached not_found_empty
  stateRoot dirty := by cases dirty

/-- Accounts may change once the state root is marked dirty. -/
theorem CachesValid.with_accounts {state : WorldState} (valid : state.CachesValid)
    (accounts : Accounts) : { state with accounts, stateRootDirty := true }.CachesValid where
  storageRoots := valid.storageRoots
  stateRoot dirty := by cases dirty

/-- The data of an account may change once the account is marked dirty. -/
theorem CachesValid.marked {state : WorldState} (valid : state.CachesValid) (addr : Address)
    {changed : WorldState} (storageRoots : changed.storageRoots = state.storageRoots)
    (dirtyStorageRoots : changed.dirtyStorageRoots = state.dirtyStorageRoots)
    (elsewhere : ∀ other, other ≠ addr →
      storageRoot changed.storage other = storageRoot state.storage other) :
    (changed.markAccountDirty addr).CachesValid where
  stateRoot dirty := by cases dirty
  storageRoots other root cached clean := by
    have apart : other ≠ addr := by
      intro same
      simp [markAccountDirty, same] at clean
    change root = storageRoot changed.storage other
    rw [elsewhere other apart]
    apply valid.storageRoots other root
    · rwa [← storageRoots]
    · rw [← dirtyStorageRoots]
      simpa [markAccountDirty, ExtTreeSet.contains_insert, apart.symm] using clean

theorem setAccount_valid {state : WorldState} (valid : state.CachesValid) (addr : Address)
    (account : AccountState) : (state.setAccount addr account).CachesValid :=
  valid.marked addr rfl rfl fun _ _ => rfl

theorem setCode_valid {state : WorldState} (valid : state.CachesValid) (addr : Address)
    (code : Bytes) : (state.setCode addr code).CachesValid :=
  valid.marked addr rfl rfl fun _ _ => rfl

theorem setStorage_valid {state : WorldState} (valid : state.CachesValid) (addr : Address)
    (key value : Uint256) : (state.setStorage addr key value).CachesValid := by
  refine valid.marked addr rfl rfl fun other apart => ?_
  apply storageRoot_congr
  intro otherKey
  have differs : (⟨addr, key⟩ : StorageKey) ≠ ⟨other, otherKey⟩ := fun same =>
    apart (congrArg StorageKey.address same).symm
  change (if value.bytes.all (· == 0) then _ else _ : Storage)[_]? = _
  split
  · rw [getElem?_erase_eq, if_neg differs]
  · rw [getElem?_insert_eq, if_neg differs]

theorem deleteAccount_valid {state : WorldState} (valid : state.CachesValid) (addr : Address) :
    (state.deleteAccount addr).CachesValid where
  stateRoot dirty := by cases dirty
  storageRoots other root cached clean := by
    have cachedBefore : (state.storageRoots.erase addr)[other]? = some root := cached
    rw [getElem?_erase_eq] at cachedBefore
    by_cases same : addr = other
    · rw [if_pos same] at cachedBefore
      cases cachedBefore
    · rw [if_neg same] at cachedBefore
      have cleanBefore : state.dirtyStorageRoots.contains other = false := by
        have clean : (state.dirtyStorageRoots.erase addr).contains other = false := clean
        simpa [ExtTreeSet.contains_erase, same] using clean
      rw [valid.storageRoots other root cachedBefore cleanBefore]
      apply storageRoot_congr
      intro key
      change _ = (state.storage.filter fun key _ => !(key.address == addr))[_]?
      have keeps : (!(other == addr)) = true := by simpa using Ne.symm same
      rw [ExtTreeMap.getElem?_filter', keeps]
      cases state.storage[(⟨other, key⟩ : StorageKey)]? with
      | none => rfl
      | some value => rfl

end WorldState

/-- The caches of a session and of its snapshots. -/
structure Session.CachesValid (session : Session) : Prop where
  state : session.state.CachesValid
  snapshots : ∀ snapshot ∈ session.snapshots, (session.state.restoreSnapshot snapshot).CachesValid

namespace Session

theorem fresh_valid : fresh.CachesValid where
  state := WorldState.fresh_valid
  snapshots _ member := by cases member

theorem apply_valid {session after : Session} {call : WorldCall} (valid : session.CachesValid)
    (step : session.Step call after) : after.CachesValid := by
  cases call with
  | setAccount addr account =>
      cases step
      exact ⟨WorldState.setAccount_valid valid.state addr account, valid.snapshots⟩
  | setBalance addr balance =>
      cases step
      exact ⟨valid.state.with_accounts _, valid.snapshots⟩
  | setNonce addr nonce =>
      cases step
      exact ⟨valid.state.with_accounts _, valid.snapshots⟩
  | setCode addr code =>
      cases step
      exact ⟨WorldState.setCode_valid valid.state addr code, valid.snapshots⟩
  | setStorage addr key value =>
      cases step
      exact ⟨WorldState.setStorage_valid valid.state addr key value, valid.snapshots⟩
  | deleteAccount addr =>
      cases step
      exact ⟨WorldState.deleteAccount_valid valid.state addr, valid.snapshots⟩
  | calculateStateRoot =>
      obtain ⟨root, calculated, -, -, validAfter⟩ := WorldState.calculateStateRoot_spec valid.state
      rw [Step, apply, calculated] at step
      cases step
      exact ⟨validAfter, valid.snapshots⟩
  | createSnapshot =>
      cases step
      refine ⟨valid.state, fun snapshot member => ?_⟩
      rcases List.mem_append.mp member with earlier | new
      · exact valid.snapshots snapshot earlier
      · rw [List.mem_singleton] at new
        rw [new]
        exact valid.state
  | restoreSnapshot index =>
      obtain ⟨snapshot, found, done⟩ := Option.bind_eq_some_iff.mp step
      cases done
      exact ⟨valid.snapshots snapshot (List.mem_of_getElem? found), valid.snapshots⟩

end Session

/-- The data with every cache empty. -/
def WorldState.withoutCaches (state : WorldState) : WorldState :=
  { WorldState.fresh with accounts := state.accounts, storage := state.storage }

theorem WorldState.withoutCaches_valid (state : WorldState) : state.withoutCaches.CachesValid :=
  ⟨fun _ _ cached => absurd cached not_found_empty, fun dirty => by cases dirty⟩

theorem run_valid {calls : List WorldCall} {session : Session}
    (run : Run Session.Step .fresh calls session) : session.CachesValid :=
  run.invariant (motive := Session.CachesValid) Session.fresh_valid
    fun _ _ _ valid step => Session.apply_valid valid step

/-- The root of a state that is reached is the root computed with no cache. -/
theorem calculateStateRoot_not_stale {calls : List WorldCall} {session : Session}
    (run : Run Session.Step .fresh calls session) :
    ∃ root after afresh, session.state.calculateStateRoot = some (root, after) ∧
      session.state.withoutCaches.calculateStateRoot = some (root, afresh) := by
  obtain ⟨after, calculated, -⟩ := WorldState.calculateStateRoot_spec (run_valid run).state
  obtain ⟨afresh, computed, -⟩ :=
    WorldState.calculateStateRoot_spec session.state.withoutCaches_valid
  exact ⟨_, after, afresh, calculated, computed⟩

/-- A balance set after a snapshot and undone by restoring it. -/
def restoredSession : Session where
  state := (WorldState.fresh.setBalance (.ofNat 20 1) (.ofNat 32 5)).restoreSnapshot
    WorldState.fresh.createSnapshot
  snapshots := [WorldState.fresh.createSnapshot]

theorem calculateStateRoot_not_stale_restored :
    ∃ root after afresh, restoredSession.state.calculateStateRoot = some (root, after) ∧
      restoredSession.state.withoutCaches.calculateStateRoot = some (root, afresh) := by
  have taken : Run Session.Step .fresh [.createSnapshot]
      ⟨.fresh, [WorldState.fresh.createSnapshot]⟩ := Run.start.step rfl
  have changed : Run Session.Step .fresh [.createSnapshot, .setBalance (.ofNat 20 1) (.ofNat 32 5)]
      ⟨WorldState.fresh.setBalance (.ofNat 20 1) (.ofNat 32 5),
        [WorldState.fresh.createSnapshot]⟩ := taken.step rfl
  have restored : Run Session.Step .fresh [.createSnapshot,
      .setBalance (.ofNat 20 1) (.ofNat 32 5), .restoreSnapshot 0] restoredSession :=
    changed.step rfl
  exact calculateStateRoot_not_stale restored

end Parthenon.Evm
