import Mathlib.Data.List.Nodup
import Mathlib.Data.List.Perm.Basic
import Parthenon.Library.Runs
import Parthenon.Validation.BlockAgreement
import Parthenon.Wallet.Wallet

namespace Parthenon

open Library Crypto Primitives Chainstate

/-! # The wallet against a rescan

`ProcessBlock` follows the chain one block at a time, `SyncWithChain` reads the
UTXO set.  Both are compared outpoint by outpoint: the unspent entry of the
wallet, and the coin of the set that pays the wallet.
-/

namespace Wallet

def listUTXOs (wallet : Wallet) (includeSpent : Bool) : List WalletUTXO :=
  if includeSpent then wallet.utxos else wallet.utxos.filter (!·.isSpent)

def outpoints (wallet : Wallet) : List OutPoint := wallet.utxos.map WalletUTXO.outpoint

/-- The first entry of an outpoint, if it is not spent. -/
def unspentAt (utxos : List WalletUTXO) (outpoint : OutPoint) : Option WalletUTXO :=
  (utxos.find? (·.outpoint = outpoint)).filter (!·.isSpent)

/-- The entry that a rescan makes of a coin. -/
def entryOf (outpoint : OutPoint) (coin : Coin) : WalletUTXO :=
  { outpoint, output := coin.output, height := coin.height, isSpent := false }

def coinAt (wallet : Wallet) (set : UTXOSet) (outpoint : OutPoint) : Option WalletUTXO :=
  ((set.getCoin outpoint).filter (wallet.isOurPubkey ·.output.pubkeyScript)).map (entryOf outpoint)

/-- The outpoints of a transaction whose outputs pay the wallet. -/
def paidOutpoints (wallet : Wallet) (tx : Transaction) : List OutPoint :=
  ((tx.outputs.mapIdx fun vout output => (tx.outpoint vout, output)).filter
    (wallet.isOurPubkey ·.2.pubkeyScript)).map Prod.fst

/-- One entry for each outpoint, and the unspent ones are the wallet's coins. -/
structure Tracks (wallet : Wallet) (set : UTXOSet) : Prop where
  distinct : wallet.outpoints.Nodup
  agrees : ∀ outpoint, unspentAt wallet.utxos outpoint = wallet.coinAt set outpoint

/-! ## Entries -/

theorem unspentAt_eq_some {utxos : List WalletUTXO}
    (distinct : (utxos.map WalletUTXO.outpoint).Nodup) {utxo : WalletUTXO} :
    unspentAt utxos utxo.outpoint = some utxo ↔ utxo ∈ utxos ∧ utxo.isSpent = false := by
  induction utxos with
  | nil => simp [unspentAt]
  | cons first rest ih =>
      obtain ⟨firstNew, restDistinct⟩ := List.nodup_cons.mp distinct
      by_cases here : first.outpoint = utxo.outpoint
      · have notLater : utxo ∉ rest := by
          intro later
          exact firstNew (here ▸ List.mem_map_of_mem later)
        have found : unspentAt (first :: rest) utxo.outpoint =
            (some first).filter (!·.isSpent) := by
          rw [unspentAt, List.find?_cons_of_pos (by simpa using here)]
        rw [found, Option.filter_eq_some_iff, List.mem_cons]
        constructor
        · intro ⟨same, unspent⟩
          cases same
          exact ⟨.inl rfl, by simpa using unspent⟩
        · intro ⟨member, unspent⟩
          rcases member with same | later
          · exact ⟨by rw [same], by simpa using unspent⟩
          · exact absurd later notLater
      · have skipped : unspentAt (first :: rest) utxo.outpoint = unspentAt rest utxo.outpoint := by
          rw [unspentAt, List.find?_cons_of_neg (by simpa using here), unspentAt]
        have other : utxo ≠ first := fun same => here (by rw [same])
        rw [skipped, ih restDistinct, List.mem_cons, or_iff_right other]

theorem unspentAt_outpoint {utxos : List WalletUTXO} {outpoint : OutPoint} {utxo : WalletUTXO}
    (found : unspentAt utxos outpoint = some utxo) : utxo.outpoint = outpoint := by
  obtain ⟨first, _⟩ := Option.filter_eq_some_iff.mp found
  simpa using List.find?_some first

theorem unspentAt_of_untracked {utxos : List WalletUTXO} {outpoint : OutPoint}
    (untracked : outpoint ∉ utxos.map WalletUTXO.outpoint) : unspentAt utxos outpoint = none := by
  have missing : utxos.find? (·.outpoint = outpoint) = none := by
    rw [List.find?_eq_none]
    intro utxo member same
    exact untracked (List.mem_map.mpr ⟨utxo, member, by simpa using same⟩)
  rw [unspentAt, missing]
  rfl

theorem markFirst_outpoints (outpoint : OutPoint) (utxos : List WalletUTXO) :
    (markFirst outpoint utxos).map WalletUTXO.outpoint = utxos.map WalletUTXO.outpoint := by
  induction utxos with
  | nil => rfl
  | cons first rest ih =>
      rw [markFirst]
      split
      · rfl
      · rw [List.map_cons, ih, List.map_cons]

theorem unspentAt_markFirst (spent outpoint : OutPoint) (utxos : List WalletUTXO) :
    unspentAt (markFirst spent utxos) outpoint =
      if spent = outpoint then none else unspentAt utxos outpoint := by
  induction utxos with
  | nil => simp [markFirst, unspentAt]
  | cons first rest ih =>
      rw [markFirst]
      by_cases marked : first.outpoint = spent
      · rw [if_pos marked]
        by_cases same : spent = outpoint
        · simp [unspentAt, marked, same]
        · simp [unspentAt, marked, same]
      · rw [if_neg marked]
        by_cases here : first.outpoint = outpoint
        · have other : ¬ spent = outpoint := fun same => marked (here.trans same.symm)
          simp [unspentAt, here, other]
        · have skipped (others : List WalletUTXO) :
              unspentAt (first :: others) outpoint = unspentAt others outpoint := by
            rw [unspentAt, List.find?_cons_of_neg (by simpa using here), unspentAt]
          rw [skipped, skipped, ih]

theorem unspentAt_append {utxos : List WalletUTXO} (added : WalletUTXO)
    (untracked : added.outpoint ∉ utxos.map WalletUTXO.outpoint) (unspent : added.isSpent = false)
    (outpoint : OutPoint) :
    unspentAt (utxos ++ [added]) outpoint =
      if added.outpoint = outpoint then some added else unspentAt utxos outpoint := by
  rw [unspentAt, List.find?_append]
  by_cases same : added.outpoint = outpoint
  · have missing : utxos.find? (·.outpoint = outpoint) = none := by
      rw [List.find?_eq_none]
      intro utxo member found
      exact untracked (List.mem_map.mpr ⟨utxo, member, by simpa [same] using found⟩)
    rw [missing, Option.none_or, if_pos same, List.find?_cons_of_pos (by simpa using same)]
    simp [unspent]
  · rw [List.find?_cons_of_neg (by simpa using same), List.find?_nil, Option.or_none, if_neg same,
      unspentAt]

/-! ## The rescan -/

theorem coinAt_eq_some {wallet : Wallet} {set : UTXOSet} {outpoint : OutPoint} {utxo : WalletUTXO} :
    wallet.coinAt set outpoint = some utxo ↔ ∃ coin, set.getCoin outpoint = some coin ∧
      wallet.isOurPubkey coin.output.pubkeyScript = true ∧ utxo = entryOf outpoint coin := by
  rw [coinAt, Option.map_eq_some_iff]
  constructor
  · intro ⟨coin, found, same⟩
    obtain ⟨found, ours⟩ := Option.filter_eq_some_iff.mp found
    exact ⟨coin, found, ours, same.symm⟩
  · intro ⟨coin, found, ours, same⟩
    exact ⟨coin, Option.filter_eq_some_iff.mpr ⟨found, ours⟩, same.symm⟩

theorem isOurPubkey_iff {wallet : Wallet} {pubkey : ByteVector} :
    wallet.isOurPubkey pubkey = true ↔ ∃ address ∈ wallet.addresses, address.pubkey = pubkey := by
  simp [isOurPubkey]

theorem mem_syncWithChain {wallet : Wallet} {set : UTXOSet} {utxo : WalletUTXO} :
    utxo ∈ (wallet.syncWithChain set).utxos ↔ wallet.coinAt set utxo.outpoint = some utxo := by
  rw [coinAt_eq_some, syncWithChain, List.mem_flatMap]
  constructor
  · intro ⟨address, listed, member⟩
    obtain ⟨entry, filtered, rfl⟩ := List.mem_map.mp member
    obtain ⟨held, pays⟩ := List.mem_filter.mp filtered
    refine ⟨entry.2, Std.ExtTreeMap.mem_toList_iff_getElem?_eq_some.mp held, ?_, rfl⟩
    exact isOurPubkey_iff.mpr ⟨address, listed, (of_decide_eq_true pays).symm⟩
  · intro ⟨coin, found, ours, same⟩
    obtain ⟨address, listed, pays⟩ := isOurPubkey_iff.mp ours
    refine ⟨address, listed, List.mem_map.mpr ⟨(utxo.outpoint, coin), ?_, same.symm⟩⟩
    exact List.mem_filter.mpr ⟨Std.ExtTreeMap.mem_toList_iff_getElem?_eq_some.mpr found,
      decide_eq_true pays.symm⟩

/-- A rescan lists a coin once for each address it pays. -/
theorem syncWithChain_nodup {wallet : Wallet}
    (distinct : (wallet.addresses.map WalletAddress.pubkey).Nodup) (set : UTXOSet) :
    (wallet.syncWithChain set).outpoints.Nodup := by
  have onlyOnce : (set.toList.map Prod.fst).Nodup := by
    rw [Std.ExtTreeMap.map_fst_toList_eq_keys]
    exact Std.ExtTreeMap.nodup_keys
  have apart : wallet.addresses.Pairwise fun left right => left.pubkey ≠ right.pubkey :=
    List.pairwise_map.mp distinct
  rw [outpoints, syncWithChain, List.map_flatMap, List.nodup_flatMap]
  constructor
  · intro address listed
    rw [List.map_map]
    exact (List.filter_sublist.map Prod.fst).nodup onlyOnce
  · refine apart.imp ?_
    intro left right differ outpoint inLeft inRight
    have paidCoin (address : WalletAddress) (listed : outpoint ∈ (List.map (fun entry =>
        ({ outpoint := entry.1, output := entry.2.output, height := entry.2.height,
           isSpent := false } : WalletUTXO))
        (set.toList.filter (·.2.output.pubkeyScript = address.pubkey))).map WalletUTXO.outpoint) :
        ∃ coin, set.getCoin outpoint = some coin ∧ coin.output.pubkeyScript = address.pubkey := by
      rw [List.map_map, List.mem_map] at listed
      obtain ⟨entry, filtered, rfl⟩ := listed
      obtain ⟨held, pays⟩ := List.mem_filter.mp filtered
      exact ⟨entry.2, Std.ExtTreeMap.mem_toList_iff_getElem?_eq_some.mp held,
        of_decide_eq_true pays⟩
    obtain ⟨coin, found, paysLeft⟩ := paidCoin left inLeft
    obtain ⟨other, otherFound, paysRight⟩ := paidCoin right inRight
    rw [found] at otherFound
    cases otherFound
    exact differ (paysLeft.symm.trans paysRight)

theorem Tracks.perm {wallet : Wallet} {set : UTXOSet} (tracks : wallet.Tracks set)
    (distinct : (wallet.addresses.map WalletAddress.pubkey).Nodup) :
    (wallet.listUTXOs false).Perm (wallet.syncWithChain set).utxos := by
  have unspent : wallet.listUTXOs false = wallet.utxos.filter (!·.isSpent) := rfl
  rw [unspent, List.perm_ext_iff_of_nodup (tracks.distinct.of_map.filter _)
    (syncWithChain_nodup distinct set).of_map]
  intro utxo
  rw [mem_syncWithChain, ← tracks.agrees, unspentAt_eq_some tracks.distinct, List.mem_filter]
  simp

/-! ## A transaction -/

theorem Tracks.markSpent {wallet : Wallet} {set : UTXOSet} (tracks : wallet.Tracks set)
    (outpoint : OutPoint) : (wallet.markSpent outpoint).Tracks (set.spendCoin outpoint).2 where
  distinct := by
    rw [outpoints, Wallet.markSpent, markFirst_outpoints]
    exact tracks.distinct
  agrees other := by
    have erased : (set.spendCoin outpoint).2.getCoin other =
        if outpoint = other then none else set.getCoin other := getElem?_erase_eq set outpoint other
    rw [Wallet.markSpent, unspentAt_markFirst, tracks.agrees, coinAt, coinAt, erased]
    split
    · rfl
    · rfl

/-- What is not unspent in the wallet can be marked. -/
theorem Tracks.markSpent_spent {wallet : Wallet} {set : UTXOSet} (tracks : wallet.Tracks set)
    {outpoint : OutPoint} (spent : unspentAt wallet.utxos outpoint = none) :
    (wallet.markSpent outpoint).Tracks set where
  distinct := by
    rw [outpoints, Wallet.markSpent, markFirst_outpoints]
    exact tracks.distinct
  agrees other := by
    have kept : (wallet.markSpent outpoint).coinAt set other = wallet.coinAt set other := rfl
    rw [kept, ← tracks.agrees, Wallet.markSpent, unspentAt_markFirst]
    by_cases same : outpoint = other
    · rw [if_pos same, ← same, spent]
    · rw [if_neg same]

theorem Tracks.spendInputs {wallet : Wallet} {set : UTXOSet} (tracks : wallet.Tracks set)
    (spent : List OutPoint) :
    (spent.foldl Wallet.markSpent wallet).Tracks
      (spent.foldl (fun set outpoint => (set.spendCoin outpoint).2) set) := by
  induction spent generalizing wallet set with
  | nil => exact tracks
  | cons outpoint rest ih => exact ih (tracks.markSpent outpoint)

theorem markSpents_outpoints (spent : List OutPoint) (wallet : Wallet) :
    (spent.foldl markSpent wallet).outpoints = wallet.outpoints := by
  induction spent generalizing wallet with
  | nil => rfl
  | cons outpoint rest ih =>
      rw [List.foldl_cons, ih]
      exact markFirst_outpoints outpoint wallet.utxos

theorem markSpents_addresses (spent : List OutPoint) (wallet : Wallet) :
    (spent.foldl markSpent wallet).addresses = wallet.addresses := by
  induction spent generalizing wallet with
  | nil => rfl
  | cons outpoint rest ih => exact ih (wallet.markSpent outpoint)

/-- The step of the output loop of `ProcessBlock`. -/
def receive (height : UInt32) (wallet : Wallet) (created : OutPoint × TxOutput) : Wallet :=
  if wallet.isOurPubkey created.2.pubkeyScript then wallet.addUTXO created.1 created.2 height
  else wallet

theorem receive_addresses (height : UInt32) (wallet : Wallet) (created : OutPoint × TxOutput) :
    (wallet.receive height created).addresses = wallet.addresses := by
  rw [receive]
  split
  · rfl
  · rfl

theorem receive_outpoints (height : UInt32) (wallet : Wallet) (created : OutPoint × TxOutput) :
    (wallet.receive height created).outpoints = wallet.outpoints ++
      ([created].filter (wallet.isOurPubkey ·.2.pubkeyScript)).map Prod.fst := by
  rw [receive]
  by_cases ours : wallet.isOurPubkey created.2.pubkeyScript = true
  · rw [if_pos ours]
    simp [outpoints, addUTXO, ours]
  · rw [if_neg ours]
    simp [ours]

theorem receives_outpoints (height : UInt32) (created : List (OutPoint × TxOutput))
    (wallet : Wallet) :
    (created.foldl (receive height) wallet).outpoints = wallet.outpoints ++
      (created.filter (wallet.isOurPubkey ·.2.pubkeyScript)).map Prod.fst := by
  induction created generalizing wallet with
  | nil => simp
  | cons first rest ih =>
      have sameKeys (pubkey : ByteVector) :
          (wallet.receive height first).isOurPubkey pubkey = wallet.isOurPubkey pubkey := by
        rw [isOurPubkey, receive_addresses, isOurPubkey]
      simp only [List.foldl_cons, ih, receive_outpoints, sameKeys, List.append_assoc]
      rw [← List.map_append, ← List.filter_append, List.singleton_append]

theorem receives_addresses (height : UInt32) (created : List (OutPoint × TxOutput))
    (wallet : Wallet) : (created.foldl (receive height) wallet).addresses = wallet.addresses := by
  induction created generalizing wallet with
  | nil => rfl
  | cons first rest ih => exact (ih (wallet.receive height first)).trans (receive_addresses _ _ _)

theorem processTransaction_eq (height : UInt32) (wallet : Wallet) (tx : Transaction) :
    processTransaction height wallet tx =
      (tx.outputs.mapIdx fun vout output => (tx.outpoint vout, output)).foldl (receive height)
        (tx.prevouts.foldl markSpent wallet) := rfl

theorem processTransaction_addresses (height : UInt32) (wallet : Wallet) (tx : Transaction) :
    (processTransaction height wallet tx).addresses = wallet.addresses := by
  rw [processTransaction_eq, receives_addresses, markSpents_addresses]

theorem processTransaction_outpoints (height : UInt32) (wallet : Wallet) (tx : Transaction) :
    (processTransaction height wallet tx).outpoints =
      wallet.outpoints ++ wallet.paidOutpoints tx := by
  have sameKeys (pubkey : ByteVector) :
      (tx.prevouts.foldl markSpent wallet).isOurPubkey pubkey = wallet.isOurPubkey pubkey := by
    rw [isOurPubkey, markSpents_addresses, isOurPubkey]
  rw [processTransaction_eq, receives_outpoints, markSpents_outpoints, paidOutpoints]
  simp only [sameKeys]

theorem Tracks.receive {wallet : Wallet} {set : UTXOSet} (tracks : wallet.Tracks set)
    {outpoint : OutPoint} (coin : Coin) (untracked : outpoint ∉ wallet.outpoints) :
    (wallet.receive coin.height (outpoint, coin.output)).Tracks (set.addCoin outpoint coin) := by
  have stored (other : OutPoint) : (set.addCoin outpoint coin).getCoin other =
      if outpoint = other then some coin else set.getCoin other :=
    getElem?_insert_eq set outpoint other coin
  rw [Wallet.receive]
  by_cases ours : wallet.isOurPubkey coin.output.pubkeyScript = true
  · rw [if_pos ours]
    refine ⟨?_, ?_⟩
    · rw [outpoints, addUTXO, List.map_append, List.nodup_append]
      refine ⟨tracks.distinct, List.nodup_singleton _, ?_⟩
      intro tracked member other new same
      rw [List.mem_singleton.mp new] at same
      have same : tracked = outpoint := same
      exact untracked (same ▸ member)
    · intro other
      have added := unspentAt_append (entryOf outpoint coin) untracked rfl other
      rw [coinAt, stored]
      refine added.trans ?_
      by_cases same : outpoint = other
      · subst same
        have kept : (some coin).filter (wallet.isOurPubkey ·.output.pubkeyScript) = some coin := by
          rw [Option.filter_some, if_pos ours]
        rw [if_pos rfl]
        exact (if_pos rfl).trans (congrArg (Option.map (entryOf outpoint)) kept).symm
      · rw [if_neg same]
        exact (if_neg same).trans (tracks.agrees other)
  · rw [if_neg ours]
    refine ⟨tracks.distinct, ?_⟩
    intro other
    rw [coinAt, stored]
    by_cases same : outpoint = other
    · subst same
      rw [if_pos rfl, Option.filter_some, if_neg ours, unspentAt_of_untracked untracked,
        Option.map_none]
    · rw [if_neg same]
      exact tracks.agrees other

theorem Tracks.receives {wallet : Wallet} {set : UTXOSet} (tracks : wallet.Tracks set)
    {height : UInt32} {created : List (OutPoint × Coin)}
    (sameHeight : ∀ entry ∈ created, entry.2.height = height)
    (apart : (created.map Prod.fst).Nodup)
    (untracked : ∀ outpoint ∈ created.map Prod.fst, outpoint ∉ wallet.outpoints) :
    ((created.map fun entry => (entry.1, entry.2.output)).foldl (Wallet.receive height) wallet).Tracks
      (created.foldl (fun set entry => set.addCoin entry.1 entry.2) set) := by
  induction created generalizing wallet set with
  | nil => exact tracks
  | cons first rest ih =>
      obtain ⟨here, later⟩ := List.forall_mem_cons.mp sameHeight
      obtain ⟨firstNew, restApart⟩ := List.nodup_cons.mp apart
      obtain ⟨firstUntracked, restUntracked⟩ := List.forall_mem_cons.mp untracked
      have next := tracks.receive first.2 firstUntracked
      rw [here] at next
      refine ih next later restApart ?_
      intro outpoint member
      rw [receive_outpoints, List.mem_append]
      intro tracked
      rcases tracked with old | new
      · exact restUntracked outpoint member old
      · obtain ⟨entry, filtered, same⟩ := List.mem_map.mp new
        have isFirst := List.mem_singleton.mp (List.mem_filter.mp filtered).1
        rw [isFirst] at same
        have same : first.1 = outpoint := same
        exact firstNew (same ▸ member)

theorem createdOutpoints_nodup {tx : Transaction} (indexed : tx.outputs.length < 2 ^ 32) :
    (createdOutpoints tx).Nodup := by
  rw [List.Nodup, List.pairwise_iff_getElem]
  intro left right inLeft inRight before same
  rw [createdOutpoints, List.length_mapIdx] at inLeft inRight
  simp only [createdOutpoints, List.getElem_mapIdx] at same
  have sameIndex := congrArg (fun outpoint => outpoint.vout.toNat) same
  have leftIndex : (tx.outpoint left).vout.toNat = left :=
    UInt32.toNat_ofNat_of_lt' (show left < 4294967296 by omega)
  have rightIndex : (tx.outpoint right).vout.toNat = right :=
    UInt32.toNat_ofNat_of_lt' (show right < 4294967296 by omega)
  simp only [leftIndex, rightIndex] at sameIndex
  omega

theorem created_eq (tx : Transaction) (height : UInt32) (isCoinbase : Bool) :
    (tx.outputs.mapIdx fun vout output => (tx.outpoint vout, output)) =
      (createdCoins tx height isCoinbase).map fun entry => (entry.1, entry.2.output) := by
  apply List.ext_getElem
  · simp [createdCoins]
  · intro index inOutputs inCoins
    simp [createdCoins]

/-- A transaction whose outpoints the wallet does not track yet. -/
theorem Tracks.processTransaction {wallet : Wallet} {set : UTXOSet} (tracks : wallet.Tracks set)
    {tx : Transaction} (indexed : tx.outputs.length < 2 ^ 32)
    (untracked : ∀ outpoint ∈ createdOutpoints tx, outpoint ∉ wallet.outpoints)
    (height : UInt32) (isCoinbase : Bool) :
    (Wallet.processTransaction height wallet tx).Tracks
      ((set.spendInputs tx).addOutputs tx height isCoinbase) := by
  have spent := tracks.spendInputs tx.prevouts
  have outpoints_eq := createdCoins_outpoints tx height isCoinbase
  rw [processTransaction_eq, created_eq tx height isCoinbase]
  refine spent.receives ?_ ?_ ?_
  · intro entry member
    obtain ⟨index, _, rfl⟩ := List.mem_mapIdx.mp member
    rfl
  · rw [outpoints_eq]
    exact createdOutpoints_nodup indexed
  · rw [outpoints_eq, markSpents_outpoints]
    exact untracked

/-! ## A block -/

/-- No transaction creates an outpoint that is tracked by then. -/
def CreatesUntracked (wallet : Wallet) : List OutPoint → List Transaction → Prop
  | _, [] => True
  | tracked, tx :: rest =>
      (∀ outpoint ∈ createdOutpoints tx, outpoint ∉ tracked) ∧
        CreatesUntracked wallet (tracked ++ wallet.paidOutpoints tx) rest

theorem CreatesUntracked.congr {left right : Wallet} (same : left.addresses = right.addresses)
    {tracked : List OutPoint} {txs : List Transaction}
    (untracked : left.CreatesUntracked tracked txs) : right.CreatesUntracked tracked txs := by
  induction txs generalizing tracked with
  | nil => exact trivial
  | cons tx rest ih =>
      have samePaid : left.paidOutpoints tx = right.paidOutpoints tx := by
        simp only [paidOutpoints, isOurPubkey, same]
      obtain ⟨here, later⟩ := untracked
      exact ⟨here, ih (samePaid ▸ later)⟩

/-- The outpoint that a coinbase names as its input. -/
def coinbasePrevout : OutPoint := ⟨zeroHash, coinbaseVoutIndex⟩

theorem prevouts_of_coinbase {tx : Transaction} (coinbase : tx.isCoinbase = true) :
    tx.prevouts = [coinbasePrevout] := by
  rw [Transaction.isCoinbase] at coinbase
  split at coinbase
  · rename_i input listed
    simp only [Bool.and_eq_true, decide_eq_true_eq] at coinbase
    rw [Transaction.prevouts, listed, List.map_singleton]
    exact congrArg (fun outpoint => [outpoint]) (OutPoint.ext coinbase.2 coinbase.1)
  · contradiction

theorem coinbasePrevout_addOutputs {set : UTXOSet} (missing : set.getCoin coinbasePrevout = none)
    {tx : Transaction} (indexed : tx.outputs.length < 2 ^ 32) (height : UInt32)
    (isCoinbase : Bool) : (set.addOutputs tx height isCoinbase).getCoin coinbasePrevout = none := by
  have unwritten : lastWrite (createUpdates tx height isCoinbase) coinbasePrevout = none := by
    apply lastWrite_eq_none.mpr
    intro update member same
    obtain ⟨created, listed, rfl⟩ := List.mem_map.mp member
    obtain ⟨index, small, rfl⟩ := List.mem_mapIdx.mp listed
    have sameVout := congrArg (fun outpoint => outpoint.vout.toNat) same
    have vout : (UInt32.ofNat index).toNat = index :=
      UInt32.toNat_ofNat_of_lt' (show index < 4294967296 by omega)
    have sameVout : (UInt32.ofNat index).toNat = 4294967295 := sameVout
    omega
  rw [UTXOSet.addOutputs_eq, UTXOSet.getCoin, getElem?_applyUpdates, unwritten]
  exact missing

theorem coinbasePrevout_spendInputs {set : UTXOSet} (missing : set.getCoin coinbasePrevout = none)
    (tx : Transaction) : (set.spendInputs tx).getCoin coinbasePrevout = none := by
  rw [UTXOSet.spendInputs_eq, UTXOSet.getCoin, getElem?_applyUpdates]
  cases wrote : lastWrite (spendUpdates tx) coinbasePrevout with
  | none => exact missing
  | some written =>
      obtain ⟨outpoint, _, same⟩ := List.mem_map.mp (mem_of_lastWrite wrote)
      cases same
      rfl

theorem coinbasePrevout_connects {height : UInt32} {set after : UTXOSet} {txs : List Transaction}
    {undos : List (List Coin)} (connects : Chain.Connects height set txs undos after)
    (indexed : ∀ tx ∈ txs, tx.outputs.length < 2 ^ 32)
    (missing : set.getCoin coinbasePrevout = none) : after.getCoin coinbasePrevout = none := by
  induction connects with
  | nil => exact missing
  | @cons utxos tx coins rest undos after _ _ ih =>
      obtain ⟨here, later⟩ := List.forall_mem_cons.mp indexed
      exact ih later
        (coinbasePrevout_addOutputs (coinbasePrevout_spendInputs missing tx) here height false)

theorem Tracks.connects {height : UInt32} {set after : UTXOSet} {txs : List Transaction}
    {undos : List (List Coin)} (connects : Chain.Connects height set txs undos after)
    {wallet : Wallet} (tracks : wallet.Tracks set)
    (indexed : ∀ tx ∈ txs, tx.outputs.length < 2 ^ 32)
    (untracked : wallet.CreatesUntracked wallet.outpoints txs) :
    (txs.foldl (Wallet.processTransaction height) wallet).Tracks after := by
  induction connects generalizing wallet with
  | nil => exact tracks
  | @cons utxos tx coins rest undos after _ _ ih =>
      obtain ⟨here, later⟩ := List.forall_mem_cons.mp indexed
      obtain ⟨untrackedHere, untrackedLater⟩ := untracked
      refine ih (tracks.processTransaction here untrackedHere height false) later ?_
      rw [processTransaction_outpoints]
      exact untrackedLater.congr (processTransaction_addresses height wallet tx).symm

/-- A connected block, delivered once, keeps the wallet in step with the chain. -/
theorem Tracks.processBlock {chain after : Chain} {block : Block} {undo : BlockUndo}
    (connected : chain.connectBlock block .empty = (true, after, undo))
    {wallet : Wallet} (tracks : wallet.Tracks chain.utxoSet)
    (missing : chain.utxoSet.getCoin coinbasePrevout = none)
    (indexed : ∀ tx ∈ block.transactions, tx.outputs.length < 2 ^ 32)
    (untracked : wallet.CreatesUntracked wallet.outpoints block.transactions) :
    (wallet.processBlock block after.height).Tracks after.utxoSet ∧
      after.utxoSet.getCoin coinbasePrevout = none := by
  rcases chain.connectBlock_cases block .empty with
    ⟨_, _, _, result⟩ | ⟨_, _, _, _, _, _, _, _, _, _, _, _, result⟩ |
    ⟨passed, coinbase, rest, undos, utxoSet, next, listed, connects, result, done⟩
  · rw [result] at connected
    cases connected
  · rw [result] at connected
    cases connected
  · rw [done] at connected
    cases connected
    obtain ⟨sameSet, height, _⟩ := result
    obtain ⟨first, others, shape, isCoinbase, _⟩ :=
      Block.isValid_shape (Bool.and_eq_true_iff.mp passed).1
    rw [listed] at shape indexed untracked
    cases shape
    obtain ⟨here, later⟩ := List.forall_mem_cons.mp indexed
    obtain ⟨untrackedHere, untrackedLater⟩ := untracked
    have unspent : chain.utxoSet.spendInputs coinbase = chain.utxoSet := by
      rw [UTXOSet.spendInputs, prevouts_of_coinbase isCoinbase]
      exact erase_of_missing missing
    have first := tracks.processTransaction here untrackedHere (chain.height + 1) true
    rw [unspent] at first
    rw [Wallet.processBlock, listed, List.foldl_cons, height, sameSet]
    refine ⟨Tracks.connects connects first later ?_, coinbasePrevout_connects connects later
      (coinbasePrevout_addOutputs missing here (chain.height + 1) true)⟩
    rw [processTransaction_outpoints]
    exact untrackedLater.congr (processTransaction_addresses _ wallet coinbase).symm

theorem receives_unpaid {height : UInt32} {wallet : Wallet} {created : List (OutPoint × TxOutput)}
    (unpaid : ∀ entry ∈ created, wallet.isOurPubkey entry.2.pubkeyScript = false) :
    created.foldl (receive height) wallet = wallet := by
  induction created with
  | nil => rfl
  | cons first rest ih =>
      obtain ⟨here, later⟩ := List.forall_mem_cons.mp unpaid
      rw [List.foldl_cons, receive, here]
      exact ih later

theorem Tracks.markSpents_spent {wallet : Wallet} {set : UTXOSet} (tracks : wallet.Tracks set)
    {spent : List OutPoint} (gone : ∀ outpoint ∈ spent, wallet.coinAt set outpoint = none) :
    (spent.foldl Wallet.markSpent wallet).Tracks set := by
  induction spent generalizing wallet with
  | nil => exact tracks
  | cons outpoint rest ih =>
      obtain ⟨here, later⟩ := List.forall_mem_cons.mp gone
      exact ih (tracks.markSpent_spent ((tracks.agrees outpoint).trans here)) later

/-- Transactions that pay the wallet nothing and spend none of its coins can come again. -/
theorem Tracks.processAgain {wallet : Wallet} {set : UTXOSet} (tracks : wallet.Tracks set)
    {txs : List Transaction} (height : UInt32)
    (unpaid : ∀ tx ∈ txs, ∀ output ∈ tx.outputs, wallet.isOurPubkey output.pubkeyScript = false)
    (gone : ∀ tx ∈ txs, ∀ outpoint ∈ tx.prevouts, wallet.coinAt set outpoint = none) :
    (txs.foldl (Wallet.processTransaction height) wallet).Tracks set := by
  induction txs generalizing wallet with
  | nil => exact tracks
  | cons tx rest ih =>
      obtain ⟨unpaidHere, unpaidLater⟩ := List.forall_mem_cons.mp unpaid
      obtain ⟨goneHere, goneLater⟩ := List.forall_mem_cons.mp gone
      have sameAddresses := markSpents_addresses tx.prevouts wallet
      have sameKeys (pubkey : ByteVector) :
          (tx.prevouts.foldl Wallet.markSpent wallet).isOurPubkey pubkey =
            wallet.isOurPubkey pubkey := by
        rw [isOurPubkey, sameAddresses, isOurPubkey]
      have marked : Wallet.processTransaction height wallet tx =
          tx.prevouts.foldl Wallet.markSpent wallet := by
        rw [processTransaction_eq]
        apply receives_unpaid
        intro entry member
        obtain ⟨index, small, rfl⟩ := List.mem_mapIdx.mp member
        rw [sameKeys]
        exact unpaidHere _ (List.getElem_mem small)
      rw [List.foldl_cons, marked]
      refine ih (tracks.markSpents_spent goneHere) ?_ ?_
      · intro other listed output paid
        rw [sameKeys]
        exact unpaidLater other listed output paid
      · intro other listed outpoint spent
        have same : (tx.prevouts.foldl Wallet.markSpent wallet).coinAt set outpoint =
            wallet.coinAt set outpoint := by
          simp only [coinAt, sameKeys]
        rw [same]
        exact goneLater other listed outpoint spent

/-! ## Deliveries -/

theorem getBalance_eq (wallet : Wallet) (asset : AssetID) :
    wallet.getBalance asset = (wallet.listUTXOs false).foldl (fun balance utxo =>
      if utxo.output.value.asset = asset then balance + utxo.output.value.amount else balance) 0 := by
  have unspent : wallet.listUTXOs false = wallet.utxos.filter (!·.isSpent) := rfl
  rw [unspent, List.foldl_filter, getBalance]
  congr
  funext balance utxo
  cases utxo.isSpent with
  | true => simp
  | false => simp

theorem getBalance_perm {left right : Wallet}
    (same : (left.listUTXOs false).Perm (right.listUTXOs false)) (asset : AssetID) :
    left.getBalance asset = right.getBalance asset := by
  rw [getBalance_eq, getBalance_eq]
  refine same.foldl_eq' ?_ 0
  intro first _ second _ balance
  by_cases ofFirst : first.output.value.asset = asset
  · by_cases ofSecond : second.output.value.asset = asset
    · simp only [ofFirst, ofSecond, if_true]
      rw [UInt64.add_assoc, UInt64.add_comm first.output.value.amount, ← UInt64.add_assoc]
    · simp only [ofFirst, ofSecond, if_true, if_false]
  · simp only [ofFirst, if_false]

theorem syncWithChain_unspent (wallet : Wallet) (set : UTXOSet) :
    (wallet.syncWithChain set).listUTXOs false = (wallet.syncWithChain set).utxos := by
  have unspent (synced : Wallet) : synced.listUTXOs false = synced.utxos.filter (!·.isSpent) := rfl
  rw [unspent, List.filter_eq_self]
  intro utxo member
  obtain ⟨coin, _, _, same⟩ := coinAt_eq_some.mp (mem_syncWithChain.mp member)
  rw [same]
  rfl

/-- The unspent coins of a wallet, as outpoints with their outputs. -/
def unspentCoins (wallet : Wallet) : List (OutPoint × TxOutput) :=
  (wallet.listUTXOs false).map fun utxo => (utxo.outpoint, utxo.output)

/-- The wallet lists each coin once, the same coins as a rescan, and is worth as much. -/
structure AgreesWithRescan (wallet : Wallet) (set : UTXOSet) : Prop where
  coins : wallet.unspentCoins.Perm (wallet.syncWithChain set).unspentCoins
  once : wallet.unspentCoins.Nodup
  balances : ∀ asset, wallet.getBalance asset = (wallet.syncWithChain set).getBalance asset

theorem Tracks.agreesWithRescan {wallet : Wallet} {set : UTXOSet} (tracks : wallet.Tracks set)
    (distinct : (wallet.addresses.map WalletAddress.pubkey).Nodup) :
    wallet.AgreesWithRescan set := by
  have same : (wallet.listUTXOs false).Perm ((wallet.syncWithChain set).listUTXOs false) := by
    rw [syncWithChain_unspent]
    exact tracks.perm distinct
  refine ⟨same.map _, ?_, getBalance_perm same⟩
  have outpoints : (wallet.unspentCoins.map Prod.fst).Nodup := by
    rw [unspentCoins, List.map_map]
    exact (List.filter_sublist.map WalletUTXO.outpoint).nodup tracks.distinct
  exact outpoints.of_map

/-- A chain, a wallet that is told of its blocks, and the blocks connected so far. -/
structure Following where
  chain : Chain
  wallet : Wallet
  connected : List Block

inductive Delivery
  | next (block : Block)
  | again (block : Block) (height : UInt32)

namespace Following

/-- A wallet with its addresses and nothing tracked, on the empty chain. -/
def start (wallet : Wallet) : Following :=
  { chain := .fresh, wallet := { wallet with utxos := [] }, connected := [] }

/-- The next block is connected and delivered, or one from before delivered once
more.  An output list that a 32-bit index does not reach the end of is walked
forever, so a block with one is never connected. -/
def Deliver (state : Following) (delivery : Delivery) (after : Following) : Prop :=
  match delivery with
  | .next block =>
      (∀ tx ∈ block.transactions, tx.outputs.length < 2 ^ 32) ∧
        ∃ chain undo, state.chain.connectBlock block .empty = (true, chain, undo) ∧
          after = {
            chain
            wallet := state.wallet.processBlock block chain.height
            connected := state.connected ++ [block] }
  | .again block height =>
      block ∈ state.connected ∧
        after = { state with wallet := state.wallet.processBlock block height }

/-- The next block creates no outpoint the wallet already tracks.  A block
delivered again pays the wallet nothing and spends nothing it lists as unspent. -/
def AddsNoDuplicate (state : Following) : Delivery → Prop
  | .next block => state.wallet.CreatesUntracked state.wallet.outpoints block.transactions
  | .again block _ => ∀ tx ∈ block.transactions,
      (∀ output ∈ tx.outputs, state.wallet.isOurPubkey output.pubkeyScript = false) ∧
        ∀ utxo ∈ state.wallet.listUTXOs false, utxo.outpoint ∉ tx.prevouts

end Following

/-- Everything delivered so far was tracked without a duplicate. -/
structure Follows (addresses : List WalletAddress) (state : Following) : Prop where
  tracks : state.wallet.Tracks state.chain.utxoSet
  sameAddresses : state.wallet.addresses = addresses
  missing : state.chain.utxoSet.getCoin coinbasePrevout = none

theorem Follows.start (wallet : Wallet) : Follows wallet.addresses (Following.start wallet) where
  tracks := ⟨List.nodup_nil, fun outpoint => by
    rw [coinAt, UTXOSet.getCoin, Following.start, Chain.fresh, Std.ExtTreeMap.getElem?_empty]
    rfl⟩
  sameAddresses := rfl
  missing := Std.ExtTreeMap.getElem?_empty

theorem processBlock_addresses (wallet : Wallet) (block : Block) (height : UInt32) :
    (wallet.processBlock block height).addresses = wallet.addresses := by
  rw [processBlock]
  induction block.transactions generalizing wallet with
  | nil => rfl
  | cons tx rest ih =>
      exact (ih (processTransaction height wallet tx)).trans
        (processTransaction_addresses height wallet tx)

theorem Follows.deliver {addresses : List WalletAddress} {state after : Following}
    {delivery : Delivery} (follows : Follows addresses state)
    (clean : state.AddsNoDuplicate delivery) (delivered : state.Deliver delivery after) :
    Follows addresses after := by
  cases delivery with
  | next block =>
      obtain ⟨indexed, chain, undo, connected, rfl⟩ := delivered
      obtain ⟨tracks, missing⟩ := follows.tracks.processBlock connected follows.missing indexed clean
      exact ⟨tracks, (processBlock_addresses _ _ _).trans follows.sameAddresses, missing⟩
  | again block height =>
      obtain ⟨_, rfl⟩ := delivered
      refine ⟨?_, (processBlock_addresses _ _ _).trans follows.sameAddresses, follows.missing⟩
      refine follows.tracks.processAgain height (fun tx listed => (clean tx listed).1) ?_
      intro tx listed outpoint spent
      rw [← follows.tracks.agrees]
      cases found : unspentAt state.wallet.utxos outpoint with
      | none => rfl
      | some utxo =>
          have sameOutpoint := unspentAt_outpoint found
          rw [← sameOutpoint] at found spent
          obtain ⟨member, unspent⟩ := (unspentAt_eq_some follows.tracks.distinct).mp found
          have listedUnspent : utxo ∈ state.wallet.listUTXOs false :=
            List.mem_filter.mpr ⟨member, by rw [unspent]; rfl⟩
          exact absurd spent ((clean tx listed).2 utxo listedUnspent)

/-- In every run whose deliveries add no duplicate, a wallet whose addresses have
different keys agrees with a rescan after each delivery. -/
theorem deliveries_agreeWithRescan {wallet : Wallet}
    (distinct : (wallet.addresses.map WalletAddress.pubkey).Nodup)
    {deliveries : List Delivery} {state : Following}
    (run : Run (fun state delivery after =>
        Following.AddsNoDuplicate state delivery ∧ Following.Deliver state delivery after)
      (Following.start wallet) deliveries state) :
    state.wallet.AgreesWithRescan state.chain.utxoSet := by
  have follows : Follows wallet.addresses state := by
    refine Run.invariant (motive := Follows wallet.addresses) (Follows.start wallet) ?_ run
    intro before delivery after follows step
    exact follows.deliver step.1 step.2
  refine follows.tracks.agreesWithRescan ?_
  rw [follows.sameAddresses]
  exact distinct

namespace Redelivery

open Validation.BlockValidator.DoubleSpend (key funding filler fillerCoinbase filler_passes
  funding_connected funding_filled)

/-- A wallet whose one address is the key that the funding block pays. -/
def wallet : Wallet :=
  { create (FixedBytes.zero 32) with
    addresses := [{ pubkey := .ofArray key ByteVector.hash_small, label := "", index := 0 }] }

theorem wallet_distinct : (wallet.addresses.map WalletAddress.pubkey).Nodup := List.nodup_singleton _

/-- The state after a block that is connected and delivered. -/
def told (state : Following) (block : Block) : Following :=
  let chain := (state.chain.connectBlock block .empty).2.1
  { chain
    wallet := state.wallet.processBlock block chain.height
    connected := state.connected ++ [block] }

theorem told_chain (state : Following) (block : Block) :
    (told state block).chain = (state.chain.connectBlock block .empty).2.1 := rfl

theorem told_delivered {state : Following} {block : Block}
    (indexed : ∀ tx ∈ block.transactions, tx.outputs.length < 2 ^ 32)
    (connected : (state.chain.connectBlock block .empty).1 = true) :
    state.Deliver (.next block) (told state block) :=
  ⟨indexed, _, _, Chain.result_of_connected connected, rfl⟩

def funded : Following := told (.start wallet) funding

theorem funded_delivered : (Following.start wallet).Deliver (.next funding) funded :=
  told_delivered (by decide) funding_connected

def filled : Following := told funded filler

theorem filled_delivered : funded.Deliver (.next filler) filled := by
  have held : Validation.BlockValidator.DoubleSpend.Filled 0 funded.chain := by
    rw [funded, told_chain, Following.start]
    dsimp only
    exact funding_filled
  have passed := filler_passes held (by decide)
  exact told_delivered (by decide) (Chain.connectBlock_coinbase rfl passed).1

/-- A block that does not concern the wallet is delivered twice. -/
theorem agrees_filled :
    let twice := { filled with wallet := filled.wallet.processBlock filler 2 }
    twice.wallet.AgreesWithRescan twice.chain.utxoSet := by
  intro twice
  have none : Run (fun state delivery after =>
        Following.AddsNoDuplicate state delivery ∧ Following.Deliver state delivery after)
      (Following.start wallet) [] (Following.start wallet) := .start
  have cleanFunding : (Following.start wallet).AddsNoDuplicate (.next funding) :=
    ⟨by decide +kernel, trivial⟩
  have cleanFiller : funded.AddsNoDuplicate (.next filler) := ⟨by decide +kernel, trivial⟩
  have cleanAgain : filled.AddsNoDuplicate (.again filler 2) := by
    intro tx listed
    rw [List.mem_singleton.mp listed]
    decide +kernel
  have again : filled.Deliver (.again filler 2) twice :=
    ⟨List.mem_append_right _ (List.mem_singleton_self _), rfl⟩
  have first := none.step ⟨cleanFunding, funded_delivered⟩
  have second := first.step ⟨cleanFiller, filled_delivered⟩
  have third := second.step ⟨cleanAgain, again⟩
  exact deliveries_agreeWithRescan wallet_distinct third

/-- The funding block is delivered twice and its coin is counted twice. -/
theorem counted_twice :
    let twice := { funded with wallet := funded.wallet.processBlock funding 1 }
    (wallet.addresses.map WalletAddress.pubkey).Nodup ∧
      Run Following.Deliver (Following.start wallet)
        [.next funding, .again funding 1] twice ∧
      twice.wallet.getBalance .talanton = 10000000000 ∧
      (twice.wallet.syncWithChain twice.chain.utxoSet).getBalance .talanton = 5000000000 ∧
      ¬ twice.wallet.AgreesWithRescan twice.chain.utxoSet := by
  intro twice
  have balances : twice.wallet.getBalance .talanton = 10000000000 ∧
      (twice.wallet.syncWithChain twice.chain.utxoSet).getBalance .talanton = 5000000000 := by
    decide +kernel
  obtain ⟨balance, rescan⟩ := balances
  have none : Run Following.Deliver (Following.start wallet) [] (Following.start wallet) := .start
  have again : funded.Deliver (.again funding 1) twice :=
    ⟨List.mem_singleton_self _, rfl⟩
  refine ⟨wallet_distinct, (none.step funded_delivered).step again, balance, rescan, ?_⟩
  intro agrees
  have same := agrees.balances .talanton
  rw [balance, rescan] at same
  exact absurd same (by decide)

end Redelivery

end Wallet

end Parthenon
