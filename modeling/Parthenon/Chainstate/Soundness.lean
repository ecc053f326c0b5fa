import Parthenon.Chainstate.Supply

namespace Parthenon.Chainstate

open Parthenon.Library Parthenon.Crypto Parthenon.Primitives Parthenon.Consensus

/-! # Runs of the chain

A run calls `ConnectBlock` on any blocks and `DisconnectBlock` on any block with
the undo data one of its connections produced.
-/

inductive ChainCall
  | connect (block : Block)
  | disconnect (block : Block) (undo : BlockUndo)

/-- A chain with what was called on it: every block ever given to `ConnectBlock`
with the undo data it left, and the connected blocks not disconnected since, the
newest one first. -/
structure ChainHistory where
  chain : Chain
  recorded : List (Block × BlockUndo)
  standing : List (Block × BlockUndo)

namespace ChainHistory

def fresh : ChainHistory := { chain := .fresh, recorded := [], standing := [] }

def apply (history : ChainHistory) : ChainCall → ChainHistory
  | .connect block =>
      let result := history.chain.connectBlock block .empty
      { chain := result.2.1
        recorded := (block, result.2.2) :: history.recorded
        standing := if result.1 then (block, result.2.2) :: history.standing else history.standing }
  | .disconnect block undo =>
      let result := history.chain.disconnectBlock block undo
      { chain := result.2
        recorded := history.recorded
        standing := if result.1 then history.standing.erase (block, undo) else history.standing }

/-- Any block may be connected, and what a connection recorded may be disconnected. -/
def Allowed (history : ChainHistory) : ChainCall → Prop
  | .connect _ => True
  | .disconnect block undo => (block, undo) ∈ history.recorded

def Step (history : ChainHistory) (call : ChainCall) (after : ChainHistory) : Prop :=
  history.Allowed call ∧ after = history.apply call

theorem step_connect (history : ChainHistory) (block : Block) :
    history.Step (.connect block) (history.apply (.connect block)) := ⟨trivial, rfl⟩

theorem apply_connect_chain (history : ChainHistory) (block : Block) :
    (history.apply (.connect block)).chain = (history.chain.connectBlock block .empty).2.1 := rfl

/-- A call out of the ways in which the chain loses count of its coins. -/
def Orderly (history : ChainHistory) : ChainCall → Prop
  | .connect block =>
      history.chain.passesChecks block = true →
        history.chain.writesBeforeFailure block = none ∧ Chain.NoOutputWraps block
  | .disconnect block undo =>
      history.chain.height = 0 ∨ block.getHash ≠ history.chain.tipHash ∨
        history.standing.head? = some (block, undo)

def OrderlyStep (history : ChainHistory) (call : ChainCall) (after : ChainHistory) : Prop :=
  history.Step call after ∧ history.Orderly call

/-- The standing blocks can be disconnected one after another, each giving back a
sound chain: a set of coins and a supply have come from connecting the first of
them to such a chain, less some coins. -/
inductive Restorable : UTXOSet → AmountMap → List (Block × BlockUndo) → Prop
  | nil : Restorable utxoSet totalSupply []
  | cons {before : Chain} {block : Block} {coinbase : Transaction} {rest : List Transaction}
      {undos : List (List Coin)} {connected utxoSet : UTXOSet} {totalSupply : AmountMap}
      (listed : block.transactions = coinbase :: rest)
      (ordinary : ∀ tx ∈ rest, tx.isCoinbase = false)
      (connects : Chain.Connects (before.height + 1) (before.withCoinbase coinbase) rest undos connected)
      (contains : connected.Contains utxoSet)
      (supply : ∀ asset, totalSupply.getD asset 0 =
        (Chain.updateSupply before.totalSupply coinbase true).getD asset 0)
      (sound : before.Sound)
      (earlier : Restorable before.utxoSet before.totalSupply others) :
      Restorable utxoSet totalSupply ((block, ⟨undos⟩) :: others)

theorem Restorable.shrink {utxoSet smaller : UTXOSet} {totalSupply sameSupply : AmountMap}
    {standing : List (Block × BlockUndo)} (restorable : Restorable utxoSet totalSupply standing)
    (contains : utxoSet.Contains smaller)
    (same : ∀ asset, sameSupply.getD asset 0 = totalSupply.getD asset 0) :
    Restorable smaller sameSupply standing := by
  cases restorable with
  | nil => exact .nil
  | cons listed ordinary connects holds supply sound earlier =>
      have within : ∀ outpoint coin, smaller.getCoin outpoint = some coin → _ :=
        fun outpoint coin found => holds outpoint coin (contains outpoint coin found)
      exact .cons listed ordinary connects within (fun asset => (same asset).trans (supply asset))
        sound earlier

/-- The invariant of orderly runs. -/
def Balanced (history : ChainHistory) : Prop :=
  history.chain.Sound ∧
    Restorable history.chain.utxoSet history.chain.totalSupply history.standing

theorem Chain.Sound.congr {left right : Chain} (sound : right.Sound)
    (same : Chain.SameState left right) : left.Sound := by
  intro asset native
  obtain ⟨utxoSame, _, _, _, supplySame⟩ := same
  rw [utxoSame, supplySame]
  exact sound asset native

theorem fresh_balanced : fresh.Balanced := by
  refine ⟨?_, .nil⟩
  intro asset native
  have noCoins : assetTotal asset Chain.fresh.utxoSet = 0 := total_empty _
  have noSupply : Chain.fresh.getTotalSupply asset = 0 := by
    simp only [AssetID.native, List.mem_cons, List.not_mem_nil, or_false] at native
    rcases native with rfl | rfl | rfl <;> decide
  change assetTotal asset Chain.fresh.utxoSet ≤ (Chain.fresh.getTotalSupply asset).toNat ∧
    Chain.fresh.getTotalSupply asset ≤ _
  rw [noCoins, noSupply]
  exact ⟨Nat.zero_le _, UInt64.zero_le⟩

theorem connect_balanced {history : ChainHistory} (balanced : history.Balanced) (block : Block)
    (orderly : history.Orderly (.connect block)) : (history.apply (.connect block)).Balanced := by
  obtain ⟨sound, restorable⟩ := balanced
  unfold Balanced apply
  dsimp only
  rcases Chain.connectBlock_cases history.chain block .empty with
    ⟨_, after, same, result⟩ |
    ⟨passed, coinbase, before, failing, later, undos, utxoSet, after, listed, connects, invalid, _, _⟩ |
    ⟨passed, coinbase, rest, undos, utxoSet, after, listed, connects, connected, result⟩
  · rw [result]
    refine ⟨Chain.Sound.congr sound same, ?_⟩
    obtain ⟨utxoSame, _, _, _, supplySame⟩ := same
    apply restorable.shrink _ supplySame
    rw [utxoSame]
    exact fun _ _ found => found
  · -- A block that stops half way has written something.
    have none : history.chain.writesBeforeFailure block = none := (orderly passed).1
    simp only [Chain.writesBeforeFailure, listed, connects.first_failing invalid later,
      Option.map_some, reduceCtorEq] at none
  · rw [result]
    have valid := (Bool.and_eq_true_iff.mp passed).1
    obtain ⟨other, others, sameList, _, ordinary⟩ := Block.isValid_shape valid
    rw [listed] at sameList
    cases sameList
    refine ⟨Chain.sound_connected sound passed listed connects connected (orderly passed).2, ?_⟩
    obtain ⟨utxoAfter, _, _, _, supplyAfter⟩ := connected
    refine .cons listed ordinary connects ?_ supplyAfter sound restorable
    rw [utxoAfter]
    exact fun _ _ found => found

theorem disconnect_balanced {history : ChainHistory} (balanced : history.Balanced) (block : Block)
    (undo : BlockUndo) (orderly : history.Orderly (.disconnect block undo)) :
    (history.apply (.disconnect block undo)).Balanced := by
  by_cases refused : history.chain.height = 0 ∨ block.getHash ≠ history.chain.tipHash
  · unfold apply
    dsimp only
    rw [Chain.disconnectBlock_refused refused]
    exact balanced
  · obtain ⟨aboveGenesis, tip⟩ := not_or.mp refused
    have latest : history.standing.head? = some (block, undo) := by
      rcases orderly with genesis | notTip | latest
      · exact absurd genesis aboveGenesis
      · exact absurd notTip tip
      · exact latest
    obtain ⟨sound, restorable⟩ := balanced
    unfold Balanced apply
    dsimp only
    cases shape : history.standing with
    | nil =>
        rw [shape] at latest
        cases latest
    | cons top earlierStanding =>
        rw [shape] at latest restorable
        cases latest
        cases restorable with
        | @cons _ before _ coinbase rest undos connected _ _ listed ordinary connects contains
            supply soundBefore earlier =>
            obtain ⟨restored, disconnected, lookups⟩ := Chain.disconnectBlock_connected listed
              ordinary connects aboveGenesis (not_not.mp tip)
            rw [Chain.connects_block_updates listed connects] at contains
            have within : before.utxoSet.Contains restored := Chain.undo_contained contains lookups
            have supplyBack (asset : AssetID) :
                (Chain.updateSupply history.chain.totalSupply coinbase false).getD asset 0 =
                  before.totalSupply.getD asset 0 := by
              rw [Chain.updateSupply_congr supply, Chain.updateSupply_undo]
            rw [disconnected]
            refine ⟨?_, ?_⟩
            · intro asset native
              obtain ⟨covered, capped⟩ := soundBefore asset native
              have fewer := assetTotal_mono within asset
              change assetTotal asset restored ≤
                ((Chain.updateSupply history.chain.totalSupply coinbase false).getD asset 0).toNat ∧
                (Chain.updateSupply history.chain.totalSupply coinbase false).getD asset 0 ≤ _
              rw [supplyBack]
              exact ⟨Nat.le_trans fewer covered, capped⟩
            · simp only [if_true, List.erase_cons_head]
              exact earlier.shrink within supplyBack

/-- Monetary soundness of every orderly run. -/
theorem orderly_run_sound {calls : List ChainCall} {history : ChainHistory}
    (run : Run OrderlyStep fresh calls history) : history.chain.Sound := by
  have balanced : history.Balanced := by
    apply run.invariant fresh_balanced
    intro state call after holds next
    obtain ⟨⟨_, rfl⟩, orderly⟩ := next
    cases call with
    | connect block => exact connect_balanced holds block orderly
    | disconnect block undo => exact disconnect_balanced holds block undo orderly
  exact balanced.1

/-- A connected block, then disconnected. -/
theorem orderly_run_sound_connected :
    ((fresh.apply (.connect Chain.RepeatedCoinbase.firstBlock)).chain).Sound := by
  have orderly : fresh.Orderly (.connect Chain.RepeatedCoinbase.firstBlock) := by
    intro _
    refine ⟨rfl, ?_⟩
    intro tx member asset native
    simp only [Chain.RepeatedCoinbase.firstBlock, Sample.block, List.mem_singleton] at member
    subst member
    simp only [AssetID.native, List.mem_cons, List.not_mem_nil, or_false] at native
    rcases native with rfl | rfl | rfl <;> decide
  exact orderly_run_sound (.step .start ⟨step_connect fresh _, orderly⟩)

/-- The coin that a rejected block leaves behind is worth more than the supply. -/
theorem run_not_sound :
    Run Step fresh [.connect Chain.StoppedBlock.block]
      (fresh.apply (.connect Chain.StoppedBlock.block)) ∧
    ¬ (fresh.apply (.connect Chain.StoppedBlock.block)).chain.Sound := by
  refine ⟨.step .start (step_connect fresh _), ?_⟩
  intro sound
  have begun : fresh.chain = Chain.fresh := rfl
  rw [apply_connect_chain, begun] at sound
  have covered := (sound .talanton (by decide)).1
  have coin : coinAmount .talanton Chain.StoppedBlock.outpoint Chain.StoppedBlock.coin ≤
      assetTotal .talanton (Chain.fresh.connectBlock Chain.StoppedBlock.block .empty).2.1.utxoSet :=
    weight_le_total _ Chain.StoppedBlock.coinbase_left
  have noSupply : ((Chain.fresh.connectBlock Chain.StoppedBlock.block .empty).2.1.getTotalSupply
      .talanton).toNat = 0 := congrArg UInt64.toNat Chain.StoppedBlock.no_supply
  have worth : coinAmount .talanton Chain.StoppedBlock.outpoint Chain.StoppedBlock.coin =
      5000000000 := by decide
  omega

end ChainHistory

end Parthenon.Chainstate
