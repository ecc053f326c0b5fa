import Parthenon.Chainstate.ChainLaws

namespace Parthenon.Chainstate

open Parthenon.Library Parthenon.Crypto Parthenon.Primitives Parthenon.Consensus

/-! # Atomicity of `ConnectBlock`

A block that stops at an invalid transaction leaves the writes of the earlier
ones behind.  It is as if it had not been tried only when those writes repeat
what the UTXO set already held.
-/

namespace Chain

/-- The transactions processed before the first one that is not valid when it
is reached, if there is such a one. -/
def processedBeforeFailure (height : UInt32) : List Transaction → UTXOSet → Option (List Transaction)
  | [], _ => none
  | tx :: rest, set =>
      match validateTransaction set tx height with
      | none => some []
      | some _ =>
          (processedBeforeFailure height rest ((set.spendInputs tx).addOutputs tx height false)).map
            (tx :: ·)

/-- What the block writes before a transaction of it turns out invalid. -/
def writesBeforeFailure (chain : Chain) (block : Block) : Option (List CoinUpdate) :=
  match block.transactions with
  | [] => none
  | coinbase :: rest =>
      (processedBeforeFailure (chain.height + 1) rest (chain.withCoinbase coinbase)).map fun before =>
        blockUpdates (chain.height + 1) (coinbase :: before)

/-- Each outpoint written holds afterwards what it held before. -/
def RepeatsStored (set : UTXOSet) (updates : List CoinUpdate) : Prop :=
  ∀ outpoint written, lastWrite updates outpoint = some written → set.getCoin outpoint = written

theorem Connects.none_fails {height : UInt32} {set after : UTXOSet} {txs : List Transaction}
    {undos : List (List Coin)} (connects : Connects height set txs undos after) :
    processedBeforeFailure height txs set = none := by
  induction connects with
  | nil => rfl
  | cons valid _ ih => simp only [processedBeforeFailure, valid, ih, Option.map_none]

theorem Connects.first_failing {height : UInt32} {set after : UTXOSet} {before : List Transaction}
    {undos : List (List Coin)} (connects : Connects height set before undos after)
    {failing : Transaction} (invalid : validateTransaction after failing height = none)
    (later : List Transaction) :
    processedBeforeFailure height (before ++ failing :: later) set = some before := by
  induction connects with
  | nil => simp only [List.nil_append, processedBeforeFailure, invalid]
  | cons valid _ ih =>
      simp only [List.cons_append, processedBeforeFailure, valid, ih invalid, Option.map_some]

theorem withCoinbase_updates (chain : Chain) (coinbase : Transaction) (txs : List Transaction) :
    applyUpdates (chain.withCoinbase coinbase)
        (txs.flatMap (transactionUpdates (chain.height + 1))) =
      applyUpdates chain.utxoSet (blockUpdates (chain.height + 1) (coinbase :: txs)) := by
  rw [withCoinbase, UTXOSet.addOutputs_eq, blockUpdates, applyUpdates_append]

theorem repeatsStored_iff (set : UTXOSet) (updates : List CoinUpdate) :
    RepeatsStored set updates ↔ applyUpdates set updates = set :=
  (applyUpdates_eq_self_iff set updates).symm

/-- A block is connected or leaves the chain as it was exactly when it is
refused before the transaction loop or writes nothing new before it fails. -/
theorem connectBlock_atomic_iff (chain : Chain) (block : Block) (undo : BlockUndo) :
    ((chain.connectBlock block undo).1 = false →
      SameState (chain.connectBlock block undo).2.1 chain) ↔
    (chain.passesChecks block = false ∨
      ∀ updates, chain.writesBeforeFailure block = some updates →
        RepeatsStored chain.utxoSet updates) := by
  rcases connectBlock_cases chain block undo with
    ⟨refused, after, same, result⟩ |
    ⟨passed, coinbase, before, failing, later, undos, utxoSet, after, listed, connects, invalid,
      same, result⟩ |
    ⟨_, coinbase, rest, undos, utxoSet, after, listed, connects, _, result⟩
  · rw [result]
    exact ⟨fun _ => .inl refused, fun _ _ => same⟩
  · have writes : chain.writesBeforeFailure block =
        some (blockUpdates (chain.height + 1) (coinbase :: before)) := by
      simp only [writesBeforeFailure, listed, connects.first_failing invalid later, Option.map_some]
    have changed : utxoSet =
        applyUpdates chain.utxoSet (blockUpdates (chain.height + 1) (coinbase :: before)) := by
      rw [connects.updates, withCoinbase_updates]
    have utxoSame : after.utxoSet = utxoSet := same.1
    rw [result]
    constructor
    · intro atomic
      refine .inr fun updates wrote => ?_
      rw [writes] at wrote
      cases wrote
      rw [repeatsStored_iff, ← changed, ← utxoSame]
      exact (atomic rfl).1
    · intro condition _
      rcases condition with refused | repeats
      · rw [passed] at refused
        contradiction
      · have unchanged := (repeatsStored_iff _ _).mp (repeats _ writes)
        exact ⟨by rw [utxoSame, changed, unchanged], same.2⟩
  · have noWrites : chain.writesBeforeFailure block = none := by
      simp only [writesBeforeFailure, listed, connects.none_fails, Option.map_none]
    rw [result]
    constructor
    · intro _
      refine .inr fun updates wrote => ?_
      rw [noWrites] at wrote
      contradiction
    · intro _ failed
      contradiction

namespace StoppedBlock

def coinbase : Transaction := Sample.coinbase [Sample.output 5000000000 ⟨[1], ByteVector.one_fits⟩]

/-- A transaction that spends an outpoint no chain has ever created. -/
def missing : Transaction :=
  Sample.spend ⟨zeroHash, 0⟩ .empty [Sample.output 1 ⟨[1], ByteVector.one_fits⟩]

def merkleRoot : Hash :=
  .ofNat 32 0x6cc9ce583e2788820e678a819f96612bf8775d22cc15b7788a9160f55180a016

def block : Block := Sample.block zeroHash merkleRoot [coinbase, missing]

def coin : Coin where
  output := Sample.output 5000000000 ⟨[1], ByteVector.one_fits⟩
  height := 1
  isCoinbase := true

def outpoint : OutPoint :=
  ⟨.ofNat 32 0x5baeeb32750090cdb800660b662c85ddbf7da5da527a2d2ff2cac7fba3acc60c, 0⟩

theorem outcome : (fresh.connectBlock block .empty).1 = false ∧
    (fresh.connectBlock block .empty).2.1.utxoSet.getCoin outpoint = some coin ∧
    (fresh.connectBlock block .empty).2.1.getTotalSupply .talanton = 0 := by
  decide +kernel

theorem rejected : (fresh.connectBlock block .empty).1 = false := outcome.1

theorem coinbase_left :
    (fresh.connectBlock block .empty).2.1.utxoSet.getCoin outpoint = some coin := outcome.2.1

theorem no_supply : (fresh.connectBlock block .empty).2.1.getTotalSupply .talanton = 0 :=
  outcome.2.2

end StoppedBlock

/-- A rejected block leaves its coinbase output in the UTXO set. -/
theorem connectBlock_not_atomic :
    (fresh.connectBlock StoppedBlock.block .empty).1 = false ∧
    ¬ SameState (fresh.connectBlock StoppedBlock.block .empty).2.1 fresh := by
  refine ⟨StoppedBlock.rejected, ?_⟩
  intro same
  have left := StoppedBlock.coinbase_left
  have noCoins : fresh.utxoSet.getCoin StoppedBlock.outpoint = none :=
    Std.ExtTreeMap.getElem?_empty
  rw [same.1, noCoins] at left
  cases left

end Chain

end Parthenon.Chainstate
