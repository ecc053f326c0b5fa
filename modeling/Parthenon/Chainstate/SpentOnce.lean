import Parthenon.Chainstate.Atomicity
import Parthenon.Library.OrderedMap

namespace Parthenon.Chainstate

open Parthenon.Library Parthenon.Crypto Parthenon.Primitives Parthenon.Consensus

/-! # No coin is spent twice

What `ConnectBlock` writes to the UTXO set over a run of blocks, connected or rejected,
as one log.  Each spend in it takes away a coin that the log created before, at a
height at which that coin may be spent.
-/

/-- A write to the UTXO set with the height of the block that makes it. -/
abbrev LoggedWrite := UInt32 × CoinUpdate

/-- A log is grounded when each spend finds a coin, and one that is spendable at its height. -/
abbrev SpendsCoins (set : UTXOSet) (writes : List LoggedWrite) : Prop :=
  Grounded (fun height (coin : Coin) => coin.isSpendable height = true) set writes

namespace Chain

/-- The transactions of a block that `ConnectBlock` goes through: all of them, or those
before the first one that is not valid when it is reached. -/
def processed (chain : Chain) (block : Block) : List Transaction :=
  match block.transactions with
  | [] => []
  | coinbase :: rest =>
      coinbase ::
        (processedBeforeFailure (chain.height + 1) rest (chain.withCoinbase coinbase)).getD rest

def writes (chain : Chain) (block : Block) : List LoggedWrite :=
  if chain.passesChecks block then
    (blockUpdates (chain.height + 1) (chain.processed block)).map ((chain.height + 1, ·))
  else []

/-- What is written over a run of blocks. -/
def log : Chain → List Block → List LoggedWrite
  | _, [] => []
  | chain, block :: rest =>
      chain.writes block ++ log (chain.connectBlock block .empty).2.1 rest

theorem updates_logged (height : UInt32) (updates : List CoinUpdate) :
    (updates.map ((height, ·))).map Prod.snd = updates := by
  rw [List.map_map]
  exact List.map_id updates

theorem createUpdates_grounded {set : UTXOSet} (mark height : UInt32) (tx : Transaction)
    (isCoinbase : Bool) :
    SpendsCoins set ((createUpdates tx height isCoinbase).map ((mark, ·))) := by
  apply Grounded.of_stores
  intro write member
  obtain ⟨update, listed, rfl⟩ := List.mem_map.mp member
  obtain ⟨created, _, rfl⟩ := List.mem_map.mp listed
  exact nofun

/-- A valid transaction spends different coins, each there and spendable. -/
theorem transactionUpdates_grounded {set : UTXOSet} {tx : Transaction} {height : UInt32}
    {coins : List Coin} (valid : tx.isValid = true) (ordinary : tx.isCoinbase = false)
    (accepted : validateTransaction set tx height = some coins) :
    SpendsCoins set ((transactionUpdates height tx).map ((height, ·))) := by
  have found := inputCoins_eq_some.mp ((validateTransaction_eq_some ordinary).mp accepted).1
  rw [transactionUpdates, List.map_append, SpendsCoins, Grounded.append_iff]
  refine ⟨?_, createUpdates_grounded height height tx false⟩
  rw [spendUpdates, List.map_map]
  apply Grounded.of_removals (Transaction.isValid_prevouts_nodup valid ordinary)
  intro outpoint member
  obtain ⟨index, inside, rfl⟩ := List.getElem_of_mem member
  have there := found.get inside (found.length_eq ▸ inside)
  exact ⟨_, there⟩

theorem Connects.grounded {height : UInt32} {set after : UTXOSet} {txs : List Transaction}
    {undos : List (List Coin)} (connects : Connects height set txs undos after)
    (valid : ∀ tx ∈ txs, tx.isValid = true ∧ tx.isCoinbase = false) :
    SpendsCoins set ((txs.flatMap (transactionUpdates height)).map ((height, ·))) := by
  induction connects with
  | nil => trivial
  | @cons tx coins set rest undos after accepted _ ih =>
      obtain ⟨here, later⟩ := List.forall_mem_cons.mp valid
      rw [List.flatMap_cons, List.map_append, SpendsCoins, Grounded.append_iff, updates_logged,
        ← processed_eq]
      exact ⟨transactionUpdates_grounded here.1 here.2 accepted, ih later⟩

/-- What a block is put through that passes the checks of the block as a whole. -/
theorem processed_connects {chain : Chain} {block : Block} (passed : chain.passesChecks block = true) :
    ∃ coinbase txs undos, chain.processed block = coinbase :: txs ∧
      Connects (chain.height + 1) (chain.withCoinbase coinbase) txs undos
        (chain.connectBlock block .empty).2.1.utxoSet ∧
      ∀ tx ∈ txs, tx.isValid = true ∧ tx.isCoinbase = false := by
  have validBlock : block.isValid = true := (Bool.and_eq_true_iff.mp passed).1
  have valid := (Block.isValid_iff.mp validBlock).2.1
  obtain ⟨first, others, shape, _, ordinary⟩ := Block.isValid_shape validBlock
  have each : ∀ tx ∈ others, tx.isValid = true ∧ tx.isCoinbase = false := fun tx member =>
    ⟨valid tx (shape ▸ List.mem_cons_of_mem first member), ordinary tx member⟩
  rcases connectBlock_cases chain block .empty with
    ⟨refused, _⟩ |
    ⟨_, coinbase, before, failing, later, undos, utxoSet, after, listed, connects, invalid, same,
      result⟩ |
    ⟨_, coinbase, rest, undos, utxoSet, after, listed, connects, connected, result⟩
  · rw [passed] at refused
    cases refused
  · obtain ⟨rfl, rfl⟩ := List.cons.inj (shape.symm.trans listed)
    refine ⟨first, before, undos, ?_, ?_, fun tx member => each tx (List.mem_append_left _ member)⟩
    · simp only [processed, listed, connects.first_failing invalid later, Option.getD_some]
    · rw [result, show after.utxoSet = utxoSet from same.1]
      exact connects
  · obtain ⟨rfl, rfl⟩ := List.cons.inj (shape.symm.trans listed)
    refine ⟨first, others, undos, ?_, ?_, each⟩
    · simp only [processed, listed, connects.none_fails, Option.getD_none]
    · rw [result, show after.utxoSet = utxoSet from connected.1]
      exact connects

/-- One call: its writes are grounded, and the UTXO set is the old one with them. -/
theorem connectBlock_writes (chain : Chain) (block : Block) :
    SpendsCoins chain.utxoSet (chain.writes block) ∧
      (chain.connectBlock block .empty).2.1.utxoSet =
        applyUpdates chain.utxoSet ((chain.writes block).map Prod.snd) := by
  cases passed : chain.passesChecks block with
  | false =>
      rw [writes, passed, if_neg Bool.false_ne_true]
      refine ⟨trivial, ?_⟩
      rcases connectBlock_cases chain block .empty with
        ⟨_, after, same, result⟩ | ⟨passes, _⟩ | ⟨passes, _⟩
      · rw [result]
        exact same.1
      · rw [passed] at passes
        cases passes
      · rw [passed] at passes
        cases passes
  | true =>
      obtain ⟨coinbase, txs, undos, listed, connects, valid⟩ := processed_connects passed
      rw [writes, passed, if_pos rfl, listed, updates_logged]
      refine ⟨?_, ?_⟩
      · rw [blockUpdates, List.map_append, SpendsCoins, Grounded.append_iff, updates_logged]
        refine ⟨createUpdates_grounded _ _ coinbase true, ?_⟩
        rw [← UTXOSet.addOutputs_eq]
        exact connects.grounded valid
      · rw [connects.updates, withCoinbase_updates]

theorem log_grounded (chain : Chain) (blocks : List Block) :
    SpendsCoins chain.utxoSet (chain.log blocks) ∧
      (blocks.foldl (fun chain block => (chain.connectBlock block .empty).2.1) chain).utxoSet =
        applyUpdates chain.utxoSet ((chain.log blocks).map Prod.snd) := by
  induction blocks generalizing chain with
  | nil => exact ⟨trivial, rfl⟩
  | cons block rest ih =>
      obtain ⟨grounded, written⟩ := chain.connectBlock_writes block
      obtain ⟨groundedLater, writtenLater⟩ := ih (chain.connectBlock block .empty).2.1
      rw [log, List.map_append, applyUpdates_append, ← written]
      refine ⟨?_, writtenLater⟩
      rw [SpendsCoins, Grounded.append_iff, ← written]
      exact ⟨grounded, groundedLater⟩

/-- In every run of `ConnectBlock` from a fresh chain, whatever is rejected on the way, each
spend takes away the coin last created at its outpoint, which may be spent at that height;
so an outpoint is spent at most as often as it is created, and what is in the UTXO set is
what was created and not spent since. -/
theorem run_spends_once (blocks : List Block) :
    let log := fresh.log blocks
    let final := blocks.foldl (fun chain block => (chain.connectBlock block .empty).2.1) fresh
    (∀ earlier later height outpoint, log = earlier ++ (height, (outpoint, none)) :: later →
      ∃ coin, lastWrite (earlier.map Prod.snd) outpoint = some (some coin) ∧
        coin.isSpendable height = true) ∧
    (∀ count outpoint, timesRemoved outpoint (log.take count) ≤ timesStored outpoint (log.take count)) ∧
    ∀ outpoint, final.utxoSet.getCoin outpoint =
      (lastWrite (log.map Prod.snd) outpoint).getD none := by
  intro log final
  obtain ⟨grounded, written⟩ := fresh.log_grounded blocks
  refine ⟨fun earlier later height outpoint split => grounded.removes_stored split, ?_, ?_⟩
  · intro count outpoint
    have split := List.take_append_drop count log
    rw [SpendsCoins, show fresh.log blocks = log.take count ++ log.drop count from split.symm,
      Grounded.append_iff] at grounded
    exact grounded.1.removals_le outpoint
  · intro outpoint
    rw [show final.utxoSet = _ from written, UTXOSet.getCoin, getElem?_applyUpdates,
      show fresh.utxoSet = ∅ from rfl, Std.ExtTreeMap.getElem?_empty]

end Chain

end Parthenon.Chainstate
