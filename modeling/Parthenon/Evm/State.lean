import Parthenon.Evm.Mpt
import Parthenon.Library.OrderedMap
import Std.Data.ExtTreeSet

namespace Parthenon.Evm

open Library Crypto Std

/-! # The world state

Accounts and storage with the roots that are kept of them.  A root is computed
again when its flag says so; `none` is a trie call that is undefined.
-/

abbrev Uint256 := FixedBytes 32

abbrev Address := FixedBytes 20

instance Address.transOrd : Std.TransOrd Address := inferInstance

structure AccountState where
  nonce : UInt64
  balance : Uint256
  codeHash : Hash
  storageRoot : Hash
  code : Bytes
deriving DecidableEq, Repr

namespace AccountState

def fresh : AccountState where
  nonce := 0
  balance := .zero 32
  codeHash := zeroHash
  storageRoot := zeroHash
  code := []

end AccountState

@[ext] structure StorageKey where
  address : Address
  key : Uint256
deriving DecidableEq, Repr

namespace StorageKey

instance : Ord StorageKey where
  compare := compareLex (compareOn (·.address)) (compareOn (·.key))

instance : TransOrd StorageKey :=
  inferInstanceAs (TransCmp (compareLex (compareOn StorageKey.address) (compareOn StorageKey.key)))

instance : LawfulEqOrd StorageKey where
  compare_self {_} := ReflCmp.compare_self
  eq_of_compare {left right} same := by
    obtain ⟨address, key⟩ := compareLex_eq_eq.mp same
    exact StorageKey.ext (LawfulEqOrd.eq_of_compare address) (LawfulEqOrd.eq_of_compare key)

end StorageKey

abbrev Accounts := ExtTreeMap Address AccountState compare

abbrev Storage := ExtTreeMap StorageKey Uint256 compare

structure WorldState where
  accounts : Accounts
  storage : Storage
  storageRoots : ExtTreeMap Address Hash compare
  dirtyStorageRoots : ExtTreeSet Address compare
  cachedStateRoot : Option Hash
  stateRootDirty : Bool

structure WorldState.Snapshot where
  accounts : Accounts
  storage : Storage
  storageRoots : ExtTreeMap Address Hash compare
  dirtyStorageRoots : ExtTreeSet Address compare
  stateRoot : Option Hash
  stateRootDirty : Bool

/-- The storage of one account, in the order of its keys. -/
def Storage.ofAddress (storage : Storage) (addr : Address) : List (StorageKey × Uint256) :=
  let start : StorageKey := ⟨addr, .zero 32⟩
  (storage.toList.dropWhile fun entry => compare entry.1 start == .lt).takeWhile
    fun entry => entry.1.address == addr

/-- The keys and values of one account as the trie takes them. -/
def Storage.bytesOf (storage : Storage) (addr : Address) : List (Bytes × Bytes) :=
  (storage.ofAddress addr).map fun entry => (entry.1.key.bytes, entry.2.bytes)

/-- The trie of a list of keys and values. -/
def trieOf (entries : List (Bytes × Bytes)) : Option MerklePatriciaTrie :=
  entries.foldlM (fun trie entry => trie.put entry.1 entry.2) .fresh

namespace WorldState

def fresh : WorldState where
  accounts := ∅
  storage := ∅
  storageRoots := ∅
  dirtyStorageRoots := ∅
  cachedStateRoot := none
  stateRootDirty := true

def markAccountDirty (state : WorldState) (addr : Address) : WorldState :=
  { state with dirtyStorageRoots := state.dirtyStorageRoots.insert addr, stateRootDirty := true }

def getAccount (state : WorldState) (addr : Address) : Option AccountState := state.accounts[addr]?

def setAccount (state : WorldState) (addr : Address) (account : AccountState) : WorldState :=
  { state with accounts := state.accounts.insert addr account }.markAccountDirty addr

def accountExists (state : WorldState) (addr : Address) : Bool := state.accounts.contains addr

def getStorage (state : WorldState) (addr : Address) (key : Uint256) : Uint256 :=
  (state.storage[(⟨addr, key⟩ : StorageKey)]?).getD (.zero 32)

/-- Storing zero forgets the entry. -/
def setStorage (state : WorldState) (addr : Address) (key value : Uint256) : WorldState :=
  let storage :=
    if value.bytes.all (· == 0) then state.storage.erase ⟨addr, key⟩
    else state.storage.insert ⟨addr, key⟩ value
  { state with storage }.markAccountDirty addr

/-- The account, made when it is not there. -/
def accountAt (state : WorldState) (addr : Address) : AccountState :=
  state.accounts[addr]?.getD .fresh

def setCode (state : WorldState) (addr : Address) (code : Bytes) : WorldState :=
  let codeHash := if code.isEmpty then zeroHash else SHA256.hash256 code
  { state with
    accounts := state.accounts.insert addr { state.accountAt addr with code, codeHash }
  }.markAccountDirty addr

def getBalance (state : WorldState) (addr : Address) : Uint256 :=
  match state.accounts[addr]? with
  | none => .zero 32
  | some account => account.balance

def setBalance (state : WorldState) (addr : Address) (balance : Uint256) : WorldState :=
  { state with
    accounts := state.accounts.insert addr { state.accountAt addr with balance }
    stateRootDirty := true }

def getNonce (state : WorldState) (addr : Address) : UInt64 :=
  match state.accounts[addr]? with
  | none => 0
  | some account => account.nonce

def setNonce (state : WorldState) (addr : Address) (nonce : UInt64) : WorldState :=
  { state with
    accounts := state.accounts.insert addr { state.accountAt addr with nonce }
    stateRootDirty := true }

def deleteAccount (state : WorldState) (addr : Address) : WorldState :=
  { state with
    accounts := state.accounts.erase addr
    storage := state.storage.filter fun key _ => !(key.address == addr)
    storageRoots := state.storageRoots.erase addr
    dirtyStorageRoots := state.dirtyStorageRoots.erase addr
    stateRootDirty := true }

def calculateStorageRoot (state : WorldState) (addr : Address) : Option (Hash × WorldState) :=
  let compute : Option (Hash × WorldState) := do
    let storageTrie ← trieOf (state.storage.bytesOf addr)
    let root := storageTrie.getRootHash
    some (root,
      { state with
        storageRoots := state.storageRoots.insert addr root
        dirtyStorageRoots := state.dirtyStorageRoots.erase addr })
  match state.storageRoots[addr]? with
  | some cached => if state.dirtyStorageRoots.contains addr then compute else some (cached, state)
  | none => compute

def accountValue (account : AccountState) (storageRoot : Hash) : Bytes :=
  littleEndian 8 account.nonce.toNat ++ account.balance.bytes ++ account.codeHash.bytes ++
    storageRoot.bytes

/-- The loop of `CalculateStateRoot` over the accounts. -/
def putAccounts : List (Address × AccountState) → MerklePatriciaTrie → WorldState →
    Option (MerklePatriciaTrie × WorldState)
  | [], trie, state => some (trie, state)
  | (addr, account) :: rest, trie, state => do
      let (storageRoot, state) ← state.calculateStorageRoot addr
      let trie ← trie.put addr.bytes (accountValue account storageRoot)
      putAccounts rest trie state

def calculateStateRoot (state : WorldState) : Option (Hash × WorldState) :=
  match state.stateRootDirty, state.cachedStateRoot with
  | false, some root => some (root, state)
  | _, _ => do
      let (trie, state) ← putAccounts state.accounts.toList .fresh state
      let root := trie.getRootHash
      some (root, { state with cachedStateRoot := some root, stateRootDirty := false })

def createSnapshot (state : WorldState) : Snapshot where
  accounts := state.accounts
  storage := state.storage
  storageRoots := state.storageRoots
  dirtyStorageRoots := state.dirtyStorageRoots
  stateRoot := state.cachedStateRoot
  stateRootDirty := state.stateRootDirty

/-- Every part of a world state is replaced. -/
def restoreSnapshot (_ : WorldState) (snapshot : Snapshot) : WorldState where
  accounts := snapshot.accounts
  storage := snapshot.storage
  storageRoots := snapshot.storageRoots
  dirtyStorageRoots := snapshot.dirtyStorageRoots
  cachedStateRoot := snapshot.stateRoot
  stateRootDirty := snapshot.stateRootDirty

end WorldState

inductive WorldCall
  | setAccount (addr : Address) (account : AccountState)
  | setBalance (addr : Address) (balance : Uint256)
  | setNonce (addr : Address) (nonce : UInt64)
  | setCode (addr : Address) (code : Bytes)
  | setStorage (addr : Address) (key value : Uint256)
  | deleteAccount (addr : Address)
  | calculateStateRoot
  | createSnapshot
  | restoreSnapshot (index : Nat)

/-- A world state and the snapshots its caller holds. -/
structure Session where
  state : WorldState
  snapshots : List WorldState.Snapshot

namespace Session

def fresh : Session := ⟨.fresh, []⟩

/-- `none` is an undefined trie call or a snapshot that was never taken. -/
def apply (session : Session) : WorldCall → Option Session
  | .setAccount addr account => some { session with state := session.state.setAccount addr account }
  | .setBalance addr balance => some { session with state := session.state.setBalance addr balance }
  | .setNonce addr nonce => some { session with state := session.state.setNonce addr nonce }
  | .setCode addr code => some { session with state := session.state.setCode addr code }
  | .setStorage addr key value =>
      some { session with state := session.state.setStorage addr key value }
  | .deleteAccount addr => some { session with state := session.state.deleteAccount addr }
  | .calculateStateRoot => do
      let (_, state) ← session.state.calculateStateRoot
      some { session with state }
  | .createSnapshot =>
      some { session with snapshots := session.snapshots ++ [session.state.createSnapshot] }
  | .restoreSnapshot index => do
      let snapshot ← session.snapshots[index]?
      some { session with state := session.state.restoreSnapshot snapshot }

def Step (session : Session) (call : WorldCall) (after : Session) : Prop :=
  session.apply call = some after

end Session

end Parthenon.Evm
