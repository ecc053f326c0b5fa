import Mathlib.Data.List.Induction
import Parthenon.Evm.State
import Parthenon.Library.Postings
import Parthenon.Primitives.TransactionCaches

namespace Parthenon.Indexers

open Library Crypto Primitives Std
open Evm (Address)

/-! # The indexers

Contracts with their events, and transactions, are recorded one after another and looked
up by address, topic and identifier.  What a lookup returns is what a scan of everything
recorded so far would find.
-/

/-! ## Contracts -/

structure ContractEvent where
  contractAddress : Address
  topics : List Hash
  data : Bytes
  blockHeight : UInt32
  txIndex : UInt32
deriving DecidableEq, Repr

structure ContractInfo where
  address : Address
  code : Bytes
  deploymentHeight : UInt32
  eventCount : UInt64
deriving DecidableEq, Repr

structure ContractIndexer where
  contracts : ExtTreeMap Address ContractInfo compare
  events : List ContractEvent
  eventsByContract : Postings Address ContractEvent compare
  eventsByTopic : Postings Hash Nat compare

namespace ContractIndexer

def empty : ContractIndexer :=
  { contracts := ∅, events := [], eventsByContract := ∅, eventsByTopic := ∅ }

variable (indexer : ContractIndexer)

def indexContractDeployment (address : Address) (code : Bytes) (height : UInt32) :
    ContractIndexer :=
  { indexer with
    contracts := indexer.contracts.insert address
      { address, code, deploymentHeight := height, eventCount := 0 } }

def indexEvent (event : ContractEvent) : ContractIndexer where
  contracts :=
    match indexer.contracts[event.contractAddress]? with
    | some info =>
        indexer.contracts.insert event.contractAddress { info with eventCount := info.eventCount + 1 }
    | none => indexer.contracts
  events := indexer.events ++ [event]
  eventsByContract := indexer.eventsByContract.post event event.contractAddress
  eventsByTopic := indexer.eventsByTopic.postAll indexer.events.length event.topics

def getEventsByContract (contractAddress : Address) (limit : UInt32) : List ContractEvent :=
  match indexer.eventsByContract[contractAddress]? with
  | some events => events.take (min limit.toNat events.length)
  | none => []

/-- The loop over the first places that a topic was seen at. -/
def getEventsByTopic (topic : Hash) (limit : UInt32) : List ContractEvent :=
  match indexer.eventsByTopic[topic]? with
  | some places =>
      (places.take (min limit.toNat places.length)).filterMap fun place => indexer.events[place]?
  | none => []

def getContractInfo (address : Address) : Option ContractInfo := indexer.contracts[address]?

def getEventCount : Nat := indexer.events.length

def getAllContracts : List Address := indexer.contracts.keys

end ContractIndexer

inductive IndexerCall
  | indexContractDeployment (address : Address) (code : Bytes) (height : UInt32)
  | indexEvent (event : ContractEvent)
deriving DecidableEq, Repr

namespace IndexerCall

def event? : IndexerCall → Option ContractEvent
  | indexContractDeployment _ _ _ => none
  | indexEvent event => some event

/-- The call records a deployment at the address. -/
def Deploys (call : IndexerCall) (address : Address) : Prop :=
  ∃ code height, call = indexContractDeployment address code height

/-- The events of a contract among the calls. -/
def eventsOf (address : Address) (calls : List IndexerCall) : List ContractEvent :=
  (calls.filterMap event?).filter fun event => event.contractAddress = address

/-- What is known of a contract: its last deployment, and how many events came after. -/
def Deployed (calls : List IndexerCall) (address : Address) (info : ContractInfo) : Prop :=
  ∃ before code height after, calls = before ++ indexContractDeployment address code height :: after ∧
    (∀ call ∈ after, ¬ call.Deploys address) ∧
    info =
      { address, code, deploymentHeight := height
        eventCount := .ofNat (eventsOf address after).length }

theorem eventsOf_snoc (address : Address) (calls : List IndexerCall) (call : IndexerCall) :
    (eventsOf address (calls ++ [call])).length =
      (eventsOf address calls).length + (eventsOf address [call]).length := by
  rw [eventsOf, List.filterMap_append, List.filter_append, List.length_append]
  rfl

theorem eventsOf_event (address : Address) (event : ContractEvent) :
    (eventsOf address [indexEvent event]).length = if event.contractAddress = address then 1 else 0 := by
  change (List.filter _ [event]).length = _
  by_cases same : event.contractAddress = address <;> simp [same]

/-- A deployment is the last one until another follows, and its events are counted on. -/
theorem deployed_snoc {calls : List IndexerCall} {call : IndexerCall} {address : Address}
    {info : ContractInfo} :
    Deployed (calls ++ [call]) address info ↔
      (∃ code height, call = indexContractDeployment address code height ∧
        info = { address, code, deploymentHeight := height, eventCount := 0 }) ∨
      ¬ call.Deploys address ∧ ∃ earlier, Deployed calls address earlier ∧
        info =
          { earlier with
            eventCount := earlier.eventCount + .ofNat (eventsOf address [call]).length } := by
  constructor
  · rintro ⟨before, code, height, after, split, others, rfl⟩
    rcases List.eq_nil_or_concat after with rfl | ⟨front, last, rfl⟩
    · obtain ⟨-, same⟩ := List.append_inj' split rfl
      cases same
      exact .inl ⟨code, height, rfl, rfl⟩
    · rw [List.concat_eq_append] at split others ⊢
      rw [← List.cons_append, ← List.append_assoc] at split
      obtain ⟨rfl, same⟩ := List.append_inj' split rfl
      cases same
      refine .inr ⟨others call (by simp), _, ⟨before, code, height, front, rfl,
        fun other member => others other (List.mem_append_left _ member), rfl⟩, ?_⟩
      rw [eventsOf_snoc, UInt64.ofNat_add]
  · rintro (⟨code, height, rfl, rfl⟩ | ⟨other, _, ⟨before, code, height, after, rfl, others, rfl⟩, rfl⟩)
    · exact ⟨calls, code, height, [], rfl, nofun, rfl⟩
    · refine ⟨before, code, height, after ++ [call], ?_, ?_, ?_⟩
      · rw [List.append_assoc, List.cons_append]
      · intro later member
        rcases List.mem_append.mp member with old | new
        · exact others later old
        · rw [List.mem_singleton.mp new]
          exact other
      · rw [eventsOf_snoc, UInt64.ofNat_add]

end IndexerCall

namespace ContractIndexer

def index (indexer : ContractIndexer) : IndexerCall → ContractIndexer
  | .indexContractDeployment address code height =>
      indexer.indexContractDeployment address code height
  | .indexEvent event => indexer.indexEvent event

/-- The tables agree with the calls so far. -/
structure Reflects (indexer : ContractIndexer) (calls : List IndexerCall) : Prop where
  events : indexer.events = calls.filterMap IndexerCall.event?
  byContract : Names id (fun event => [event.contractAddress]) indexer.events indexer.eventsByContract
  byTopic : Locates ContractEvent.topics indexer.events indexer.eventsByTopic
  contracts : ∀ address info, indexer.contracts[address]? = some info ↔
    IndexerCall.Deployed calls address info

theorem empty_reflects : Reflects empty [] where
  events := rfl
  byContract := names_nil _ _
  byTopic := locates_nil _
  contracts address info := by
    refine iff_of_false not_found_empty ?_
    rintro ⟨before, _, _, after, split, _⟩
    cases before <;> cases split

variable {indexer : ContractIndexer} {calls : List IndexerCall}

theorem Reflects.indexContractDeployment (reflects : Reflects indexer calls) (address : Address)
    (code : Bytes) (height : UInt32) :
    Reflects (indexer.indexContractDeployment address code height)
      (calls ++ [.indexContractDeployment address code height]) where
  events := by
    rw [List.filterMap_append]
    exact reflects.events.trans (List.append_nil _).symm
  byContract := reflects.byContract
  byTopic := reflects.byTopic
  contracts other info := by
    unfold ContractIndexer.indexContractDeployment
    dsimp only
    rw [getElem?_insert_eq, IndexerCall.deployed_snoc]
    by_cases same : address = other
    · subst same
      rw [if_pos rfl, Option.some.injEq]
      constructor
      · rintro rfl
        exact .inl ⟨code, height, rfl, rfl⟩
      · rintro (⟨_, _, isCall, rfl⟩ | ⟨others, _⟩)
        · cases isCall
          rfl
        · exact absurd ⟨code, height, rfl⟩ others
    · rw [if_neg same, reflects.contracts]
      constructor
      · intro deployed
        refine .inr ⟨?_, info, deployed, ?_⟩
        · rintro ⟨_, _, isCall⟩
          cases isCall
          exact same rfl
        · exact congrArg (fun count => { info with eventCount := count }) (UInt64.add_zero _).symm
      · rintro (⟨_, _, isCall, _⟩ | ⟨_, earlier, deployed, rfl⟩)
        · cases isCall
          exact absurd rfl same
        · have nothing : earlier.eventCount + UInt64.ofNat 0 = earlier.eventCount := UInt64.add_zero _
          change IndexerCall.Deployed calls other
            { earlier with eventCount := earlier.eventCount + UInt64.ofNat 0 }
          rw [nothing]
          exact deployed

theorem Reflects.indexEvent (reflects : Reflects indexer calls) (event : ContractEvent) :
    Reflects (indexer.indexEvent event) (calls ++ [.indexEvent event]) where
  events := by
    rw [List.filterMap_append, ← reflects.events]
    rfl
  byContract := reflects.byContract.snoc event
  byTopic := reflects.byTopic.snoc event
  contracts address info := by
    have undeployed : ¬ (IndexerCall.indexEvent event).Deploys address := nofun
    have counted : (indexer.indexEvent event).contracts[address]? =
        indexer.contracts[address]?.map fun earlier =>
          { earlier with
            eventCount := earlier.eventCount +
              .ofNat (IndexerCall.eventsOf address [.indexEvent event]).length } := by
      rw [IndexerCall.eventsOf_event, ContractIndexer.indexEvent]
      dsimp only
      by_cases same : event.contractAddress = address
      · rw [same, if_pos rfl]
        cases found : indexer.contracts[address]? with
        | none => exact found
        | some earlier =>
            dsimp only
            rw [getElem?_insert_eq, if_pos rfl]
            rfl
      · rw [if_neg same]
        have zero (count : UInt64) : count + UInt64.ofNat 0 = count := UInt64.add_zero count
        simp only [zero, Option.map_id']
        cases indexer.contracts[event.contractAddress]? with
        | none => rfl
        | some earlier =>
            dsimp only
            rw [getElem?_insert_eq, if_neg same]
    rw [counted, IndexerCall.deployed_snoc, Option.map_eq_some_iff]
    constructor
    · rintro ⟨earlier, found, rfl⟩
      exact .inr ⟨undeployed, earlier, (reflects.contracts address earlier).mp found, rfl⟩
    · rintro (⟨_, _, isCall, _⟩ | ⟨_, earlier, deployed, rfl⟩)
      · cases isCall
      · exact ⟨earlier, (reflects.contracts address earlier).mpr deployed, rfl⟩

theorem foldl_reflects (calls : List IndexerCall) : Reflects (calls.foldl index empty) calls := by
  induction calls using List.reverseRecOn with
  | nil => exact empty_reflects
  | append_singleton calls call ih =>
      rw [List.foldl_append]
      cases call with
      | indexContractDeployment address code height =>
          exact ih.indexContractDeployment address code height
      | indexEvent event => exact ih.indexEvent event

theorem getEventsByContract_eq (contractAddress : Address) (limit : UInt32) :
    indexer.getEventsByContract contractAddress limit =
      (indexer.eventsByContract.getD contractAddress []).take limit.toNat := by
  rw [getEventsByContract, ExtTreeMap.getD_eq_getD_getElem?]
  cases indexer.eventsByContract[contractAddress]? with
  | none => exact List.take_nil.symm
  | some events => exact List.take_eq_take_min.symm

theorem getEventsByTopic_eq (topic : Hash) (limit : UInt32) :
    indexer.getEventsByTopic topic limit =
      ((indexer.eventsByTopic.getD topic []).take limit.toNat).filterMap (indexer.events[·]?) := by
  rw [getEventsByTopic, ExtTreeMap.getD_eq_getD_getElem?]
  cases indexer.eventsByTopic[topic]? with
  | none => rw [Option.getD_none, List.take_nil, List.filterMap_nil]
  | some places => exact congrArg (List.filterMap _) List.take_eq_take_min.symm

/-- In every run the lookups return what a scan of the recorded events finds: those of a contract,
those with a topic, once for each time an event has it, and the last deployment at an
address with the number of events since.  The addresses listed are the deployed ones. -/
theorem run_reflects_events (calls : List IndexerCall) :
    let indexer := calls.foldl index empty
    let events := calls.filterMap IndexerCall.event?
    (∀ contractAddress limit, indexer.getEventsByContract contractAddress limit =
        (events.filter fun event => event.contractAddress = contractAddress).take limit.toNat) ∧
      (∀ topic limit, indexer.getEventsByTopic topic limit =
        (hits ContractEvent.topics events topic).take limit.toNat) ∧
      (∀ address info, indexer.getContractInfo address = some info ↔
        IndexerCall.Deployed calls address info) ∧
      indexer.getEventCount = events.length ∧
      ∀ address, address ∈ indexer.getAllContracts ↔
        ∃ info, IndexerCall.Deployed calls address info := by
  intro indexer events
  have reflects : Reflects indexer calls := foldl_reflects calls
  refine ⟨fun contractAddress limit => ?_, fun topic limit => ?_, reflects.contracts,
    congrArg List.length reflects.events, fun address => ?_⟩
  · rw [getEventsByContract_eq, reflects.byContract, List.map_id, hits_singleton, reflects.events]
  · rw [getEventsByTopic_eq, reflects.byTopic.filterMap_take, reflects.events]
  · rw [getAllContracts, ExtTreeMap.mem_keys, ExtTreeMap.mem_iff_isSome_getElem?,
      Option.isSome_iff_exists]
    exact exists_congr fun info => reflects.contracts address info

end ContractIndexer

/-! ## Transactions -/

structure TxInfo where
  tx : CachedTransaction
  height : UInt32
  blockTime : UInt32

structure TxIndexer where
  txById : ExtTreeMap Hash TxInfo compare
  txByAddress : Postings Bytes Hash compare

namespace TxIndexer

def empty : TxIndexer := { txById := ∅, txByAddress := ∅ }

/-- The transactions that are spent from, but for the one a coinbase names. -/
def spentKeys (tx : Transaction) : List Bytes :=
  (tx.inputs.filter fun input => input.prevout.txid ≠ zeroHash).map (·.prevout.txid.bytes)

def scripts (tx : Transaction) : List Bytes :=
  (tx.outputs.filter fun output => output.pubkeyScript.size > 0).map (·.pubkeyScript.bytes)

variable (indexer : TxIndexer)

def indexTransaction (tx : CachedTransaction) (height blockTime : UInt32) : TxIndexer :=
  let (txid, tx) := tx.getTxID
  { txById := indexer.txById.insert txid { tx, height, blockTime }
    txByAddress := (indexer.txByAddress.postAll txid (spentKeys tx.toTransaction)).postAll txid
      (scripts tx.toTransaction) }

/-- The loop of `GetTransactionsByAddress`. -/
def collect (limit : UInt32) : List Hash → List CachedTransaction → List CachedTransaction
  | [], result => result
  | txid :: rest, result =>
      if result.length ≥ limit.toNat then result
      else
        match indexer.txById[txid]? with
        | some info => collect limit rest (result ++ [info.tx])
        | none => collect limit rest result

def getTransactionsByAddress (address : Bytes) (limit : UInt32) : List CachedTransaction :=
  match indexer.txByAddress[address]? with
  | some txids => indexer.collect limit txids []
  | none => []

def getTransactionById (txid : Hash) : Option CachedTransaction :=
  indexer.txById[txid]?.map TxInfo.tx

/-- What a transaction is indexed under. -/
def addresses (tx : CachedTransaction) : List Bytes :=
  spentKeys tx.toTransaction ++ scripts tx.toTransaction

/-- The transaction that was indexed last under an identifier, its identifier cached. -/
def latest (txs : List CachedTransaction) (txid : Hash) : Option CachedTransaction :=
  (txs.reverse.find? fun tx => tx.getTxID.1 = txid).map fun tx => tx.getTxID.2

theorem latest_snoc (txs : List CachedTransaction) (tx : CachedTransaction) (txid : Hash) :
    latest (txs ++ [tx]) txid =
      if tx.getTxID.1 = txid then some tx.getTxID.2 else latest txs txid := by
  rw [latest, List.reverse_append, List.reverse_singleton, List.singleton_append, List.find?_cons]
  by_cases same : tx.getTxID.1 = txid
  · simp [same]
  · simp [same, latest]

theorem latest_of_mem {txs : List CachedTransaction} {tx : CachedTransaction} (member : tx ∈ txs) :
    ∃ last, latest txs tx.getTxID.1 = some last := by
  unfold latest
  cases found : txs.reverse.find? fun other => other.getTxID.1 = tx.getTxID.1 with
  | some last => exact ⟨_, rfl⟩
  | none =>
      rw [List.find?_eq_none] at found
      exact absurd (decide_eq_true rfl) (found tx (List.mem_reverse.mpr member))

/-- The tables agree with the transactions so far. -/
structure Reflects (indexer : TxIndexer) (txs : List CachedTransaction) : Prop where
  byId : ∀ txid, indexer.getTransactionById txid = latest txs txid
  byAddress : Names (fun tx => tx.getTxID.1) addresses txs indexer.txByAddress

variable {indexer} {txs : List CachedTransaction}

theorem Reflects.indexTransaction (reflects : Reflects indexer txs) (tx : CachedTransaction)
    (height blockTime : UInt32) :
    Reflects (indexer.indexTransaction tx height blockTime) (txs ++ [tx]) where
  byId txid := by
    rw [latest_snoc, ← reflects.byId]
    unfold getTransactionById TxIndexer.indexTransaction
    dsimp only
    rw [getElem?_insert_eq]
    split <;> rfl
  byAddress := by
    have posted : (indexer.indexTransaction tx height blockTime).txByAddress =
        indexer.txByAddress.postAll tx.getTxID.1 (addresses tx) := by
      unfold TxIndexer.indexTransaction addresses
      dsimp only
      rw [CachedTransaction.getTxID_toTransaction, Postings.postAll_append]
    rw [posted]
    exact reflects.byAddress.snoc tx

/-- Every identifier leads to a transaction, so as many are collected as there is room for. -/
theorem collect_eq (limit : UInt32) {txids : List Hash} {result : List CachedTransaction}
    (known : ∀ txid ∈ txids, ∃ tx, indexer.getTransactionById txid = some tx) :
    (indexer.collect limit txids result).map some =
      result.map some ++
        (txids.take (limit.toNat - result.length)).map indexer.getTransactionById := by
  induction txids generalizing result with
  | nil => rw [collect, List.take_nil, List.map_nil, List.append_nil]
  | cons txid rest ih =>
      obtain ⟨here, later⟩ := List.forall_mem_cons.mp known
      obtain ⟨tx, found⟩ := here
      obtain ⟨info, isInfo, rfl⟩ := Option.map_eq_some_iff.mp found
      rw [collect]
      split
      · rename_i full
        rw [Nat.sub_eq_zero_of_le full, List.take_zero, List.map_nil, List.append_nil]
      · rename_i room
        obtain ⟨more, isMore⟩ : ∃ more, limit.toNat - result.length = more + 1 :=
          ⟨limit.toNat - result.length - 1, by omega⟩
        rw [isInfo]
        dsimp only
        rw [ih later, isMore, List.take_succ_cons, List.map_cons, found, List.map_append,
          List.append_assoc, List.length_append, List.length_singleton]
        congr 3
        rw [show limit.toNat - (result.length + 1) = more by omega]
        rfl

end TxIndexer

end Parthenon.Indexers
