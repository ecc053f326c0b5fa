import Parthenon.Chainstate.SpentOnce
import Parthenon.Library.Histories
import Parthenon.Node.Ledgers
import Parthenon.Node.PoolConflicts
import Parthenon.Node.PreCheck
import Parthenon.Primitives.BlockCommitment

namespace Parthenon

open Library Crypto Primitives Consensus Chainstate Validation Storage

/-! # Two nodes with one tip

A tip commits to all that a node has accepted: through the headers to one another, and
through the Merkle roots to the transactions.  A padded copy of a block is no way out, since
a node connects no block in which a stretch of transactions is repeated: some transaction
of the stretch spends a coin that nothing in the stretch gives back.
-/

namespace Chainstate

/-- The identifiers of the transactions that an ordinary transaction spends from. -/
def spentIDs (tx : Transaction) : List Hash :=
  if tx.isCoinbase then [] else tx.prevouts.map OutPoint.txid

/-- Transactions that spend from earlier ones only. -/
abbrev RootedTxs : List Transaction → Prop := Rooted Transaction.getTxID spentIDs

/-- The coins are outputs of the transactions. -/
def Sourced (history : List Transaction) (set : UTXOSet) : Prop :=
  ∀ outpoint coin, set.getCoin outpoint = some coin →
    outpoint.txid ∈ history.map Transaction.getTxID

theorem txid_of_created {tx : Transaction} {outpoint : OutPoint}
    (created : outpoint ∈ createdOutpoints tx) : outpoint.txid = tx.getTxID := by
  obtain ⟨vout, _, rfl⟩ := List.mem_mapIdx.mp created
  rfl

theorem lastWrite_spendUpdates {tx : Transaction} {outpoint : OutPoint}
    (spends : outpoint ∈ tx.prevouts) : lastWrite (spendUpdates tx) outpoint = some none := by
  cases wrote : lastWrite (spendUpdates tx) outpoint with
  | none =>
      exact absurd rfl (lastWrite_eq_none.mp wrote _ (List.mem_map.mpr ⟨outpoint, spends, rfl⟩))
  | some written =>
      obtain ⟨_, _, same⟩ := List.mem_map.mp (mem_of_lastWrite wrote)
      cases same
      rfl

theorem txid_of_updated {height : UInt32} {txs : List Transaction} {outpoint : OutPoint} {coin : Coin}
    (updated : (outpoint, some coin) ∈ txs.flatMap (transactionUpdates height)) :
    outpoint.txid ∈ txs.map Transaction.getTxID := by
  obtain ⟨tx, listed, update⟩ := List.mem_flatMap.mp updated
  rcases List.mem_append.mp update with spent | created
  · obtain ⟨_, _, same⟩ := List.mem_map.mp spent
    cases same
  · rw [txid_of_created (mem_createUpdates created)]
    exact List.mem_map_of_mem listed

namespace Sourced

variable {history more : List Transaction} {set : UTXOSet}

/-- Coins are kept, or created by what is added to the history. -/
theorem updated {updates : List CoinUpdate} (sourced : Sourced history set)
    (created : ∀ outpoint coin, (outpoint, some coin) ∈ updates →
      outpoint.txid ∈ more.map Transaction.getTxID) :
    Sourced (history ++ more) (applyUpdates set updates) := by
  intro outpoint coin found
  rw [List.map_append, List.mem_append]
  rw [UTXOSet.getCoin, getElem?_applyUpdates] at found
  cases wrote : lastWrite updates outpoint with
  | none =>
      rw [wrote] at found
      exact .inl (sourced outpoint coin found)
  | some written =>
      rw [wrote] at found
      cases found
      exact .inr (created outpoint coin (mem_of_lastWrite wrote))

theorem coinbase (sourced : Sourced history set) (tx : Transaction) (height : UInt32) :
    Sourced (history ++ [tx]) (set.addOutputs tx height true) := by
  rw [UTXOSet.addOutputs_eq]
  refine sourced.updated fun outpoint coin member => ?_
  rw [txid_of_created (mem_createUpdates member)]
  exact List.mem_singleton_self _

theorem processed (sourced : Sourced history set) (tx : Transaction) (height : UInt32) :
    Sourced (history ++ [tx]) ((set.spendInputs tx).addOutputs tx height false) := by
  rw [Chain.processed_eq]
  refine sourced.updated fun outpoint coin member => ?_
  have updated : (outpoint, some coin) ∈ [tx].flatMap (transactionUpdates height) := by
    rwa [List.flatMap_singleton]
  exact txid_of_updated updated

end Sourced

namespace Chain

variable {history : List Transaction} {height : UInt32} {set after : UTXOSet}
  {undos : List (List Coin)}

theorem coin_of_input {tx : Transaction} {coins : List Coin} (ordinary : tx.isCoinbase = false)
    (valid : validateTransaction set tx height = some coins) {outpoint : OutPoint}
    (spends : outpoint ∈ tx.prevouts) : ∃ coin, set.getCoin outpoint = some coin := by
  have found := inputCoins_eq_some.mp ((validateTransaction_eq_some ordinary).mp valid).1
  obtain ⟨index, inside, rfl⟩ := List.getElem_of_mem spends
  exact ⟨_, (found.get inside (found.length_eq ▸ inside)).1⟩

/-- What a valid transaction spends is there. -/
theorem spentIDs_sourced {tx : Transaction} {coins : List Coin} (sourced : Sourced history set)
    (valid : validateTransaction set tx height = some coins) :
    ∀ txid ∈ spentIDs tx, txid ∈ history.map Transaction.getTxID := by
  intro txid spent
  unfold spentIDs at spent
  split at spent
  · cases spent
  · rename_i ordinary
    obtain ⟨outpoint, isInput, rfl⟩ := List.mem_map.mp spent
    obtain ⟨coin, found⟩ := coin_of_input (Bool.eq_false_iff.mpr ordinary) valid isInput
    exact sourced outpoint coin found

theorem Connects.rooted {txs : List Transaction} (connects : Connects height set txs undos after)
    (rooted : RootedTxs history) (sourced : Sourced history set) :
    RootedTxs (history ++ txs) ∧ Sourced (history ++ txs) after := by
  induction connects generalizing history with
  | nil =>
      rw [List.append_nil]
      exact ⟨rooted, sourced⟩
  | @cons set tx coins rest undos after valid _ ih =>
      have longer := ih (rooted.concat (spentIDs_sourced sourced valid)) (sourced.processed tx height)
      rwa [List.append_assoc, List.singleton_append] at longer

theorem Connects.split {first second : List Transaction}
    (connects : Connects height set (first ++ second) undos after) :
    ∃ middle earlier later, Connects height set first earlier middle ∧
      Connects height middle second later after := by
  induction first generalizing set undos with
  | nil => exact ⟨set, [], undos, .nil, connects⟩
  | cons tx rest ih =>
      cases connects with
      | cons valid tail =>
          obtain ⟨middle, earlier, later, before, rests⟩ := ih tail
          exact ⟨middle, _, later, .cons valid before, rests⟩

/-- Between two copies of a transaction its inputs are created again. -/
theorem Connects.respent {before between later : List Transaction} {tx : Transaction}
    (connects : Connects height set (before ++ tx :: (between ++ tx :: later)) undos after)
    (ordinary : tx.isCoinbase = false) {outpoint : OutPoint} (spends : outpoint ∈ tx.prevouts) :
    outpoint.txid ∈ (tx :: between).map Transaction.getTxID := by
  obtain ⟨reached, _, _, _, rest⟩ := connects.split
  rw [← List.cons_append] at rest
  obtain ⟨middle, _, _, first, second⟩ := rest.split
  cases second with
  | cons valid _ =>
      obtain ⟨coin, found⟩ := coin_of_input ordinary valid spends
      rw [first.updates, List.flatMap_cons, transactionUpdates, List.append_assoc, UTXOSet.getCoin,
        getElem?_applyUpdates, lastWrite_append, lastWrite_spendUpdates spends] at found
      cases wrote : lastWrite (createUpdates tx height false ++
          between.flatMap (transactionUpdates height)) outpoint with
      | none =>
          rw [wrote] at found
          cases found
      | some written =>
          rw [wrote] at found
          cases found
          rw [List.map_cons, List.mem_cons]
          rcases List.mem_append.mp (mem_of_lastWrite wrote) with created | updated
          · exact .inl (txid_of_created (mem_createUpdates created))
          · exact .inr (txid_of_updated updated)

/-- A block that connects repeats no stretch of its transactions. -/
theorem Connects.squareFree {coinbase : Transaction} {txs : List Transaction}
    (connects : Connects height set txs undos after) (isCoinbase : coinbase.isCoinbase = true)
    (valid : ∀ tx ∈ txs, tx.isValid = true ∧ tx.isCoinbase = false)
    (rooted : RootedTxs (history ++ coinbase :: txs))
    (injective : ∀ one ∈ history ++ coinbase :: txs, ∀ other ∈ history ++ coinbase :: txs,
      one.getTxID = other.getTxID → one = other) :
    SquareFree (coinbase :: txs) := by
  intro before stretch later split
  by_contra repeats
  cases before with
  | nil =>
      cases stretch with
      | nil => exact repeats rfl
      | cons first rest =>
          -- the second copy of the coinbase would stand among the ordinary transactions
          rw [List.nil_append, List.cons_append] at split
          obtain ⟨rfl, rests⟩ := List.cons.inj split
          have again : coinbase ∈ txs := by
            rw [rests]
            exact List.mem_append_right _ (List.mem_append_left _ List.mem_cons_self)
          rw [(valid coinbase again).2] at isCoinbase
          cases isCoinbase
  | cons first before =>
      rw [List.cons_append] at split
      obtain ⟨rfl, rfl⟩ := List.cons.inj split
      have inTxs (tx : Transaction) (member : tx ∈ stretch) :
          tx ∈ before ++ (stretch ++ (stretch ++ later)) :=
        List.mem_append_right _ (List.mem_append_left _ member)
      obtain ⟨tx, member, free⟩ := rooted.exists_free injective
        (fun tx member => List.mem_append_right _ (List.mem_cons_of_mem _ (inTxs tx member))) repeats
      obtain ⟨isValid, ordinary⟩ := valid tx (inTxs tx member)
      obtain ⟨outpoint, spends⟩ : ∃ outpoint, outpoint ∈ tx.prevouts := by
        apply List.exists_mem_of_ne_nil
        intro none
        have inputs := (Transaction.isValid_iff.mp isValid).1
        rw [List.map_eq_nil_iff.mp none] at inputs
        cases inputs
      apply free outpoint.txid
      · rw [spentIDs, if_neg (Bool.eq_false_iff.mp ordinary)]
        exact List.mem_map_of_mem spends
      · obtain ⟨earlier, rest, rfl⟩ := List.append_of_mem member
        have shape : before ++ (earlier ++ tx :: rest ++ (earlier ++ tx :: rest ++ later)) =
            (before ++ earlier) ++ tx :: ((rest ++ earlier) ++ tx :: (rest ++ later)) := by
          simp only [List.append_assoc, List.cons_append]
        rw [shape] at connects
        have created := connects.respent ordinary spends
        simp only [List.map_cons, List.map_append, List.mem_cons, List.mem_append] at created ⊢
        tauto

variable {chain : Chain} {block : Block} {coinbase : Transaction}

theorem rooted_coinbase (rooted : RootedTxs history) (sourced : Sourced history chain.utxoSet)
    (isCoinbase : coinbase.isCoinbase = true) :
    RootedTxs (history ++ [coinbase]) ∧
      Sourced (history ++ [coinbase]) (chain.withCoinbase coinbase) := by
  refine ⟨rooted.concat fun txid spent => ?_, sourced.coinbase coinbase _⟩
  rw [spentIDs, if_pos isCoinbase] at spent
  cases spent

/-- `ConnectBlock` adds transactions of the block to the history: all of them, or those
before the first one that is not valid. -/
theorem connectBlock_rooted (block : Block) (rooted : RootedTxs history)
    (sourced : Sourced history chain.utxoSet) :
    ∃ more, (∀ tx ∈ more, tx ∈ block.transactions) ∧ RootedTxs (history ++ more) ∧
      Sourced (history ++ more) (chain.connectBlock block .empty).2.1.utxoSet := by
  rcases chain.connectBlock_cases block .empty with
    ⟨_, after, same, result⟩ |
    ⟨passed, coinbase, before, failing, later, undos, set, after, listed, connects, _, same, result⟩ |
    ⟨passed, coinbase, rest, undos, set, after, listed, connects, connected, result⟩
  · refine ⟨[], nofun, ?_⟩
    rw [List.append_nil, result, same.1]
    exact ⟨rooted, sourced⟩
  · obtain ⟨first, others, shape, isCoinbase, _⟩ :=
      Block.isValid_shape (Bool.and_eq_true_iff.mp passed).1
    obtain ⟨rfl, _⟩ := List.cons.inj (shape.symm.trans listed)
    obtain ⟨started, begun⟩ := rooted_coinbase rooted sourced isCoinbase
    refine ⟨first :: before, fun tx member => ?_, ?_⟩
    · rw [listed, ← List.cons_append]
      exact List.mem_append_left _ member
    · rw [result, same.1, ← List.singleton_append, ← List.append_assoc]
      exact connects.rooted started begun
  · obtain ⟨first, others, shape, isCoinbase, _⟩ :=
      Block.isValid_shape (Bool.and_eq_true_iff.mp passed).1
    obtain ⟨rfl, _⟩ := List.cons.inj (shape.symm.trans listed)
    obtain ⟨started, begun⟩ := rooted_coinbase rooted sourced isCoinbase
    refine ⟨first :: rest, fun tx member => listed ▸ member, ?_⟩
    rw [result, connected.1, ← List.singleton_append, ← List.append_assoc]
    exact connects.rooted started begun

theorem connected_squareFree {after : Chain} {undo : BlockUndo} (rooted : RootedTxs history)
    (sourced : Sourced history chain.utxoSet)
    (connected : chain.connectBlock block .empty = (true, after, undo))
    (injective : ∀ one ∈ history ++ block.transactions, ∀ other ∈ history ++ block.transactions,
      one.getTxID = other.getTxID → one = other) : SquareFree block.transactions := by
  rcases chain.connectBlock_cases block .empty with
    ⟨_, _, _, result⟩ | ⟨_, _, _, _, _, _, _, _, _, _, _, _, result⟩ |
    ⟨passed, coinbase, rest, undos, set, _, listed, connects, _, _⟩
  · rw [result] at connected
    cases connected
  · rw [result] at connected
    cases connected
  · have validBlock : block.isValid = true := (Bool.and_eq_true_iff.mp passed).1
    have valid := (Block.isValid_iff.mp validBlock).2.1
    obtain ⟨first, others, shape, isCoinbase, ordinary⟩ := Block.isValid_shape validBlock
    obtain ⟨rfl, rfl⟩ := List.cons.inj (shape.symm.trans listed)
    obtain ⟨started, begun⟩ := rooted_coinbase rooted sourced isCoinbase
    have whole := (connects.rooted started begun).1
    rw [List.append_assoc, List.singleton_append] at whole
    rw [listed] at valid injective ⊢
    exact connects.squareFree isCoinbase
      (fun tx member => ⟨valid tx (List.mem_cons_of_mem _ member), ordinary tx member⟩) whole injective

end Chain

end Chainstate

/-! ## What is assumed of the hash -/

/-- The byte strings that are hashed for the blocks. -/
def hashedStrings (blocks : List Block) : List Bytes :=
  blocks.flatMap fun block => block.header.serialize :: MerkleTree.hashedStrings block.transactions

/-- The pairs of nodes that are hashed in the Merkle trees of the blocks. -/
def hashedPairs (blocks : List Block) : List Bytes :=
  blocks.flatMap fun block =>
    (combinedPairs MerkleTree.hashNodes (block.transactions.map Transaction.getTxID)).map fun pair =>
      pair.1.bytes ++ pair.2.bytes

/-- The hash tells apart what it is applied to: it has no collision there, gives no header
the zero hash, and no transaction has the bytes of a pair of nodes. -/
structure Binding (blocks : List Block) : Prop where
  collisionFree : Set.InjOn SHA256d.hash256d (fun data => data ∈ hashedStrings blocks)
  notZero : ∀ block ∈ blocks, block.getHash ≠ zeroHash
  notPair : ∀ block ∈ blocks, ∀ tx ∈ block.transactions, tx.serialize ∉ hashedPairs blocks

namespace Binding

variable {blocks : List Block} (binding : Binding blocks)

include binding

theorem header_inj {first second : Block} (listed : first ∈ blocks) (listedOther : second ∈ blocks)
    (same : first.getHash = second.getHash) : first.header = second.header := by
  have serialized := binding.collisionFree
    (List.mem_flatMap.mpr ⟨first, listed, List.mem_cons_self⟩)
    (List.mem_flatMap.mpr ⟨second, listedOther, List.mem_cons_self⟩) same
  have read := BlockHeader.deserialize_ok.mpr (List.append_nil first.header.serialize).symm
  rw [serialized, BlockHeader.deserialize_ok.mpr (List.append_nil second.header.serialize).symm] at read
  exact (Prod.mk.inj (Except.ok.inj read)).1.symm

theorem transaction_inj (limits : ∀ block ∈ blocks, block.WithinLimits) {first second : Block}
    (listed : first ∈ blocks) (listedOther : second ∈ blocks) {tx other : Transaction}
    (member : tx ∈ first.transactions) (memberOther : other ∈ second.transactions)
    (same : tx.getTxID = other.getTxID) : tx = other := by
  have serialized := binding.collisionFree
    (List.mem_flatMap.mpr ⟨first, listed, List.mem_cons_of_mem _
      (MerkleTree.serialize_mem_hashedStrings member)⟩)
    (List.mem_flatMap.mpr ⟨second, listedOther, List.mem_cons_of_mem _
      (MerkleTree.serialize_mem_hashedStrings memberOther)⟩) same
  exact Transaction.serialize_injective ((limits first listed).2 tx member)
    ((limits second listedOther).2 other memberOther) serialized

theorem collisionFree_pair {first second : Block} (listed : first ∈ blocks)
    (listedOther : second ∈ blocks) :
    MerkleTree.CollisionFree first.transactions second.transactions := by
  apply binding.collisionFree.mono
  rintro data (inFirst | inSecond)
  · exact List.mem_flatMap.mpr ⟨first, listed, List.mem_cons_of_mem _ inFirst⟩
  · exact List.mem_flatMap.mpr ⟨second, listedOther, List.mem_cons_of_mem _ inSecond⟩

/-- Among valid blocks that repeat no stretch of transactions the hash determines the block. -/
theorem block_inj (limits : ∀ block ∈ blocks, block.WithinLimits) {first second : Block}
    (listed : first ∈ blocks) (listedOther : second ∈ blocks) (valid : first.isValid = true)
    (validOther : second.isValid = true) (free : SquareFree first.transactions)
    (freeOther : SquareFree second.transactions) (same : first.getHash = second.getHash) :
    first = second := by
  have headers := binding.header_inj listed listedOther same
  have some_ (block : Block) (isValid : block.isValid = true) :
      block.transactions.map Transaction.getTxID ≠ [] := by
    obtain ⟨_, _, shape, _⟩ := Block.isValid_shape isValid
    rw [shape]
    exact List.cons_ne_nil _ _
  have ids (block : Block) (member : block ∈ blocks) (isFree : SquareFree block.transactions) :
      SquareFree (block.transactions.map Transaction.getTxID) :=
    isFree.map fun tx inBlock other inOther =>
      binding.transaction_inj limits member member inBlock inOther
  have apart (leaf : Hash) (isLeaf : leaf ∈ first.transactions.map Transaction.getTxID ∨
        leaf ∈ second.transactions.map Transaction.getTxID) (pair : Hash × Hash)
      (combined : pair ∈ combinedPairs MerkleTree.hashNodes
          (first.transactions.map Transaction.getTxID) ∨
        pair ∈ combinedPairs MerkleTree.hashNodes (second.transactions.map Transaction.getTxID)) :
      leaf ≠ MerkleTree.hashNodes pair.1 pair.2 := by
    obtain ⟨block, member, tx, inBlock, rfl⟩ :
        ∃ block ∈ blocks, ∃ tx ∈ block.transactions, tx.getTxID = leaf := by
      rcases isLeaf with inFirst | inSecond
      · exact ⟨first, listed, List.mem_map.mp inFirst⟩
      · exact ⟨second, listedOther, List.mem_map.mp inSecond⟩
    obtain ⟨other, memberOther, hashed⟩ : ∃ other ∈ blocks,
        pair ∈ combinedPairs MerkleTree.hashNodes (other.transactions.map Transaction.getTxID) :=
      combined.elim (fun inFirst => ⟨first, listed, inFirst⟩)
        fun inSecond => ⟨second, listedOther, inSecond⟩
    intro sameHash
    have bytes : tx.serialize = pair.1.bytes ++ pair.2.bytes :=
      binding.collisionFree
        (List.mem_flatMap.mpr ⟨block, member, List.mem_cons_of_mem _
          (MerkleTree.serialize_mem_hashedStrings inBlock)⟩)
        (List.mem_flatMap.mpr ⟨other, memberOther, List.mem_cons_of_mem _
          (MerkleTree.pair_mem_hashedStrings hashed)⟩) sameHash
    apply binding.notPair block member tx inBlock
    rw [bytes]
    exact List.mem_flatMap.mpr ⟨other, memberOther, List.mem_map.mpr ⟨pair, hashed, rfl⟩⟩
  have roots : first.calculateMerkleRoot = second.calculateMerkleRoot := by
    rw [(Block.isValid_iff.mp valid).2.2.1, (Block.isValid_iff.mp validOther).2.2.1, headers]
  have sameIDs : first.transactions.map Transaction.getTxID =
      second.transactions.map Transaction.getTxID :=
    pairRoot_inj_of_squareFree MerkleTree.hashNodes
      (MerkleTree.hashNodes_injOn (binding.collisionFree_pair listed listedOther)) zeroHash
      (some_ first valid) (some_ second validOther) (ids first listed free)
      (ids second listedOther freeOther) (fun _ => .inl) (fun _ => .inr) apart roots
  have sameTxs : first.transactions = second.transactions :=
    map_inj_between (fun tx member other memberOther =>
      binding.transaction_inj limits listed listedOther member memberOther) sameIDs
  obtain ⟨header, transactions⟩ := first
  obtain ⟨headerOther, transactionsOther⟩ := second
  exact congrArg₂ Block.mk headers sameTxs

end Binding

/-! ## What a node has accepted -/

def NodeCall.block? : NodeCall → Option Block
  | .validateAndApplyBlock block => some block
  | _ => none

/-- The blocks that a node is offered. -/
def offered (calls : List NodeCall) : List Block := calls.filterMap NodeCall.block?

/-- The ledger that a list of blocks leads to. -/
structure Ledger where
  height : UInt32
  utxoSet : UTXOSet
  totalSupply : AmountMap

namespace Ledger

def fresh : Ledger := { height := 0, utxoSet := ∅, totalSupply := initialSupply }

def extend (ledger : Ledger) (block : Block) : Ledger where
  height := ledger.height + 1
  utxoSet := applyUpdates ledger.utxoSet (blockUpdates (ledger.height + 1) block.transactions)
  totalSupply :=
    match block.transactions with
    | [] => ledger.totalSupply
    | coinbase :: _ => Chain.updateSupply ledger.totalSupply coinbase true

def of (blocks : List Block) : Ledger := blocks.foldl extend fresh

theorem of_concat (blocks : List Block) (block : Block) :
    of (blocks ++ [block]) = (of blocks).extend block := by
  rw [of, List.foldl_append]
  rfl

end Ledger

namespace Node

variable {db : LevelDB}

/-- A block reaches the chain through `ConnectBlock` alone. -/
theorem validateAndApplyBlock_chain (secp : Secp256k1) (node : Node db) (block : Block) :
    (node.validateAndApplyBlock secp block).2.chain = node.chain ∨
      (node.validateAndApplyBlock secp block).2.chain = (node.chain.connectBlock block .empty).2.1 := by
  unfold validateAndApplyBlock
  split
  · exact .inl rfl
  · split
    · exact .inl rfl
    · exact .inl rfl
    · split
      · exact .inl rfl
      · split
        · rename_i connected
          rw [connected]
          exact .inr rfl
        · rename_i connected
          rw [connected]
          split <;> exact .inr rfl

end Node

/-- A node with the blocks it has accepted. -/
structure Recorded (db : LevelDB) where
  node : Node db
  accepted : List Block

namespace Recorded

variable {db : LevelDB} {secp : Secp256k1}

def construct (networkMode : NetworkMode) (disk : db.Disk) : Recorded db :=
  { node := .construct networkMode disk, accepted := [] }

def acceptedBy (secp : Secp256k1) (node : Node db) : NodeCall → List Block
  | .validateAndApplyBlock block =>
      if (node.validateAndApplyBlock secp block).1 = some true then [block] else []
  | .start _ _ | .submitTransaction _ _ => []

def Step (secp : Secp256k1) (record : Recorded db) (call : NodeCall) (after : Recorded db) : Prop :=
  record.node.Step secp call after.node ∧
    after.accepted = record.accepted ++ acceptedBy secp record.node call

/-- A step in which a block that is refused leaves the coins as they are. -/
def OrderlyStep (secp : Secp256k1) (record : Recorded db) (call : NodeCall)
    (after : Recorded db) : Prop :=
  record.Step secp call after ∧
    (after.accepted = record.accepted → after.node.chain.utxoSet = record.node.chain.utxoSet)

/-- A call leaves the tip where it is, or extends the chain by a block that both ledgers accept. -/
theorem step_cases (documented : db.Documented) {record after : Recorded db} {call : NodeCall}
    (next : record.Step secp call after) :
    (after.accepted = record.accepted ∧ after.node.chainState = record.node.chainState ∧
      after.node.chain.tipHash = record.node.chain.tipHash ∧
      (after.node.chain.utxoSet = record.node.chain.utxoSet ∨
        ∃ block, call.block? = some block ∧
          after.node.chain = (record.node.chain.connectBlock block .empty).2.1)) ∨
    ∃ block undo, call.block? = some block ∧ after.accepted = record.accepted ++ [block] ∧
      record.node.chainState.validateBlock block = some true ∧
      record.node.chain.connectBlock block .empty = (true, after.node.chain, undo) ∧
      after.node.chainState = (record.node.chainState.applyBlock block).2 := by
  obtain ⟨taken, recorded⟩ := next
  cases call with
  | start utxoOpens networkStarts =>
      obtain ⟨fuel, result, done⟩ := taken
      obtain ⟨_, chainState, _, same⟩ := Node.start_refused documented done
      rw [acceptedBy, List.append_nil] at recorded
      exact .inl ⟨recorded, chainState, same.2.2.1, .inl same.1⟩
  | submitTransaction tx time =>
      obtain ⟨fuel, result, done⟩ := taken
      obtain ⟨chainState, chain⟩ := Node.submitTransaction_keeps done
      rw [acceptedBy, List.append_nil] at recorded
      rw [chain]
      exact .inl ⟨recorded, chainState, rfl, .inl rfl⟩
  | validateAndApplyBlock block =>
      rw [Node.Step] at taken
      rcases record.node.validateAndApplyBlock_cases secp block with
        ⟨outcome, chain, notTrue, result, _, tipHash, _⟩ | ⟨chain, undo, valid, _, connected, result⟩
      · have chains := record.node.validateAndApplyBlock_chain secp block
        rw [acceptedBy, result, if_neg notTrue, List.append_nil] at recorded
        rw [result] at taken chains
        rw [taken]
        refine .inl ⟨recorded, rfl, tipHash, ?_⟩
        rcases chains with same | reached
        · exact .inl (congrArg Chain.utxoSet same)
        · exact .inr ⟨block, rfl, reached⟩
      · rw [acceptedBy, result, if_pos rfl] at recorded
        rw [result] at taken
        rw [taken]
        exact .inr ⟨block, undo, rfl, recorded, valid, connected, rfl⟩

/-- The ledgers have moved by the accepted blocks and are at the last of them. -/
structure Counted (record : Recorded db) : Prop where
  inStep : InStep record.node.chainState record.node.chain
  counted : record.node.chainState.height.toNat = record.accepted.length
  tip : record.node.chain.tipHash = lastName Block.getHash zeroHash record.accepted

theorem counted_start (networkMode : NetworkMode) (disk : db.Disk) :
    Counted (construct networkMode disk) where
  inStep := .fresh
  counted := rfl
  tip := rfl

/-- A block that the chain state admits follows the last accepted one. -/
theorem Counted.previous {record : Recorded db} {block : Block} (counted : record.Counted)
    (valid : record.node.chainState.validateBlock block = some true) :
    block.header.prevBlockHash = lastName Block.getHash zeroHash record.accepted := by
  rw [(ChainState.validateBlock_eq_true.mp valid).2.1]
  split
  · rename_i isZero
    have none : record.accepted = [] := by
      apply List.eq_nil_of_length_eq_zero
      rw [← counted.counted, isZero]
      rfl
    rw [none]
    rfl
  · rw [← counted.inStep.tipHash, counted.tip]

theorem Counted.step {record after : Recorded db} {call : NodeCall} (documented : db.Documented)
    (counted : record.Counted) (few : record.accepted.length + 1 < 2 ^ 64)
    (next : record.Step secp call after) : after.Counted := by
  have inStep : InStep after.node.chainState after.node.chain :=
    Node.step_inStep documented counted.inStep next.1
  rcases step_cases documented next with
    ⟨same, chainState, tipHash, _⟩ | ⟨block, undo, _, grown, valid, _, chainState⟩
  · refine ⟨inStep, ?_, ?_⟩
    · rw [chainState, same]
      exact counted.counted
    · rw [tipHash, same]
      exact counted.tip
  · obtain ⟨reachedHeight, reachedTip⟩ :
        after.node.chainState.height = record.node.chainState.height + 1 ∧
          after.node.chainState.tipHash = block.getHash := by
      rcases record.node.chainState.applyBlock_cases block with
        ⟨notValid, _⟩ | ⟨_, _, _, _, _, applied⟩
      · exact absurd valid notValid
      · rw [chainState, applied]
        exact ⟨rfl, rfl⟩
    refine ⟨inStep, ?_, ?_⟩
    · rw [reachedHeight, grown, List.length_append, List.length_singleton, UInt64.toNat_add,
        counted.counted]
      exact Nat.mod_eq_of_lt few
    · rw [inStep.tipHash, reachedTip, grown, lastName_concat]

theorem step_accepted {record after : Recorded db} {call : NodeCall}
    (next : record.Step secp call after) : after.accepted.length ≤ record.accepted.length + 1 := by
  rw [next.2, List.length_append, Nat.add_le_add_iff_left]
  unfold acceptedBy
  split
  · split <;> simp
  · simp
  · simp

/-- Accepted blocks stay accepted, and the ledgers keep count of them. -/
theorem run_counted (documented : db.Documented) {record after : Recorded db}
    {calls : List NodeCall} (counted : record.Counted) (run : Run (Step secp) record calls after)
    (few : record.accepted.length + calls.length < 2 ^ 64) :
    after.Counted ∧ record.accepted <+: after.accepted ∧
      after.accepted.length ≤ record.accepted.length + calls.length := by
  induction run with
  | start => exact ⟨counted, List.prefix_rfl, Nat.le_refl _⟩
  | @step calls state call after before next ih =>
      rw [List.length_append, List.length_singleton] at few ⊢
      obtain ⟨reached, kept, grown⟩ := ih (by omega)
      have once := step_accepted next
      refine ⟨reached.step documented (by omega) next, kept.trans ?_, by omega⟩
      rw [next.2]
      exact List.prefix_append _ _

/-- What a node knows of its past, among the blocks of the run. -/
structure Remembers (blocks : List Block) (record : Recorded db) : Prop extends Counted record where
  linked : Linked Block.getHash (·.header.prevBlockHash) zeroHash record.accepted
  each : ∀ block ∈ record.accepted,
    block ∈ blocks ∧ block.isValid = true ∧ SquareFree block.transactions
  rooted : ∃ history, (∀ tx ∈ history, ∃ block ∈ blocks, tx ∈ block.transactions) ∧
    RootedTxs history ∧ Sourced history record.node.chain.utxoSet

theorem remembers_start (blocks : List Block) (networkMode : NetworkMode) (disk : db.Disk) :
    Remembers blocks (construct networkMode disk) where
  toCounted := counted_start networkMode disk
  linked := trivial
  each := nofun
  rooted := ⟨[], nofun, rooted_nil _ _, fun _ _ found => absurd found not_found_empty⟩

/-- The step lemma.  A block that is accepted follows the tip, and repeats no stretch of
its transactions; what a refused one leaves behind has its sources too. -/
theorem Remembers.step {blocks : List Block} {record after : Recorded db} {call : NodeCall}
    (documented : db.Documented) (remembers : record.Remembers blocks)
    (identified : ∀ first ∈ blocks, ∀ second ∈ blocks, ∀ tx ∈ first.transactions,
      ∀ other ∈ second.transactions, tx.getTxID = other.getTxID → tx = other)
    (known : ∀ block, call.block? = some block → block ∈ blocks)
    (few : record.accepted.length + 1 < 2 ^ 64) (next : record.Step secp call after) :
    after.Remembers blocks := by
  have counted := remembers.toCounted.step documented few next
  obtain ⟨history, listed, rooted, sourced⟩ := remembers.rooted
  rcases step_cases documented next with
    ⟨same, _, _, chain⟩ | ⟨block, undo, isBlock, grown, valid, connected, _⟩
  · refine ⟨counted, ?_, ?_, ?_⟩
    · rw [same]
      exact remembers.linked
    · rw [same]
      exact remembers.each
    · rcases chain with kept | ⟨block, isBlock, reached⟩
      · rw [kept]
        exact ⟨history, listed, rooted, sourced⟩
      · obtain ⟨more, inBlock, longer, moved⟩ := Chain.connectBlock_rooted block rooted sourced
        rw [reached]
        refine ⟨history ++ more, fun tx member => ?_, longer, moved⟩
        exact (List.mem_append.mp member).elim (listed tx)
          fun inMore => ⟨block, known block isBlock, inBlock tx inMore⟩
  · have member := known block isBlock
    have inHistory (tx : Transaction) (found : tx ∈ history ++ block.transactions) :
        ∃ block ∈ blocks, tx ∈ block.transactions :=
      (List.mem_append.mp found).elim (listed tx) fun inBlock => ⟨block, member, inBlock⟩
    have free : SquareFree block.transactions :=
      Chain.connected_squareFree rooted sourced connected fun tx found other foundOther =>
        let ⟨first, inFirst, isTx⟩ := inHistory tx found
        let ⟨second, inSecond, isOther⟩ := inHistory other foundOther
        identified first inFirst second inSecond tx isTx other isOther
    refine ⟨counted, ?_, ?_, ?_⟩
    · rw [grown]
      exact (linked_concat _ _).mpr ⟨remembers.linked, remembers.previous valid⟩
    · rw [grown]
      intro other found
      rcases List.mem_append.mp found with earlier | isLast
      · exact remembers.each other earlier
      · rw [List.mem_singleton.mp isLast]
        exact ⟨member, (ChainState.validateBlock_eq_true.mp valid).1, free⟩
    · obtain ⟨more, inBlock, longer, moved⟩ := Chain.connectBlock_rooted block rooted sourced
      rw [connected] at moved
      refine ⟨history ++ more, fun tx found => inHistory tx ?_, longer, moved⟩
      exact (List.mem_append.mp found).elim (List.mem_append_left _)
        fun inMore => List.mem_append_right _ (inBlock tx inMore)

/-- The run lemma. -/
theorem run_remembers (documented : db.Documented) {blocks : List Block}
    (identified : ∀ first ∈ blocks, ∀ second ∈ blocks, ∀ tx ∈ first.transactions,
      ∀ other ∈ second.transactions, tx.getTxID = other.getTxID → tx = other)
    {networkMode : NetworkMode} {disk : db.Disk} {calls : List NodeCall} {record : Recorded db}
    (run : Run (Step secp) (construct networkMode disk) calls record)
    (known : ∀ block ∈ offered calls, block ∈ blocks) (few : calls.length < 2 ^ 64) :
    record.Remembers blocks ∧ record.accepted.length ≤ calls.length := by
  induction run with
  | start => exact ⟨remembers_start blocks networkMode disk, Nat.le_refl 0⟩
  | @step calls state call after before next ih =>
      rw [List.length_append, List.length_singleton] at few ⊢
      rw [offered, List.filterMap_append] at known
      obtain ⟨remembers, counted⟩ := ih
        (fun block member => known block (List.mem_append_left _ member)) (by omega)
      have grown := step_accepted next
      refine ⟨remembers.step documented identified ?_ (by omega) next, by omega⟩
      intro block isBlock
      apply known block
      rw [List.mem_append]
      exact .inr (List.mem_filterMap.mpr ⟨call, List.mem_singleton_self call, isBlock⟩)

/-- The chain has the height and the supplies of the ledger of its blocks. -/
structure Keeps (record : Recorded db) : Prop where
  inStep : InStep record.node.chainState record.node.chain
  height : record.node.chain.height = (Ledger.of record.accepted).height
  totalSupply : ∀ asset,
    record.node.chain.getTotalSupply asset = (Ledger.of record.accepted).totalSupply.getD asset 0

theorem Keeps.step (documented : db.Documented) {record after : Recorded db} {call : NodeCall}
    (keeps : record.Keeps) (next : record.Step secp call after) : after.Keeps := by
  have inStep : InStep after.node.chainState after.node.chain :=
    Node.step_inStep documented keeps.inStep next.1
  rcases step_cases documented next with
    ⟨same, chainState, _⟩ | ⟨block, undo, _, grown, _, connected, _⟩
  · refine ⟨inStep, ?_, fun asset => ?_⟩
    · rw [same, ← keeps.height, inStep.height, chainState, keeps.inStep.height]
    · rw [same, ← keeps.totalSupply, inStep.totalSupply, chainState, keeps.inStep.totalSupply]
  · rcases record.node.chain.connectBlock_cases block .empty with
      ⟨_, _, _, result⟩ | ⟨_, _, _, _, _, _, _, _, _, _, _, _, result⟩ |
      ⟨_, coinbase, rest, _, _, _, listed, _, shape, result⟩
    · rw [result] at connected
      cases connected
    · rw [result] at connected
      cases connected
    · rw [result] at connected
      cases connected
      obtain ⟨_, height, _, _, supply⟩ := shape
      refine ⟨inStep, ?_, fun asset => ?_⟩
      · rw [height, grown, Ledger.of_concat, keeps.height]
        rfl
      · rw [supply, grown, Ledger.of_concat, Ledger.extend, listed]
        exact Chain.updateSupply_congr keeps.totalSupply coinbase true asset

theorem run_keeps (documented : db.Documented) {networkMode : NetworkMode} {disk : db.Disk}
    {calls : List NodeCall} {record : Recorded db}
    (run : Run (Step secp) (construct networkMode disk) calls record) : record.Keeps :=
  run.invariant (motive := Keeps) ⟨.fresh, rfl, fun _ => rfl⟩
    fun _ _ _ keeps next => keeps.step documented next

/-- Where refused blocks leave the coins alone, the coins are those of the ledger too. -/
theorem run_coins (documented : db.Documented) {networkMode : NetworkMode} {disk : db.Disk}
    {calls : List NodeCall} {record : Recorded db}
    (run : Run (OrderlyStep secp) (construct networkMode disk) calls record) :
    record.node.chain.utxoSet = (Ledger.of record.accepted).utxoSet := by
  have both : record.Keeps ∧
      record.node.chain.utxoSet = (Ledger.of record.accepted).utxoSet := by
    refine run.invariant (motive := fun record => record.Keeps ∧
      record.node.chain.utxoSet = (Ledger.of record.accepted).utxoSet)
      ⟨⟨.fresh, rfl, fun _ => rfl⟩, rfl⟩ ?_
    rintro record call after ⟨keeps, coins⟩ ⟨next, orderly⟩
    refine ⟨keeps.step documented next, ?_⟩
    rcases step_cases documented next with ⟨same, _⟩ | ⟨block, undo, _, grown, _, connected, _⟩
    · rw [orderly same, same, coins]
    · rw [Chain.connectBlock_utxoSet connected, grown, Ledger.of_concat, Ledger.extend, coins,
        keeps.height]
  exact both.2

/-! Two fresh nodes accept one block, and the second one is then offered another first block. -/
namespace TwoNodes

open BlockValidator.DoubleSpend (library funding filler fundingCoinbase fillerCoinbase)
open Node.MaturedCoin (start)

def first : Recorded .memory where
  node := (start.validateAndApplyBlock library funding).2
  accepted := [funding]

def second : Recorded .memory where
  node := (first.node.validateAndApplyBlock library filler).2
  accepted := [funding]

theorem funding_accepted : (start.validateAndApplyBlock library funding).1 = some true :=
  Node.coinbase_block_accepted library .fresh (by decide) Node.MaturedCoin.funding_valid rfl

theorem start_eq : construct .regtest ([] : List (Bytes × Bytes)) =
    ({ node := start, accepted := [] } : Recorded .memory) := rfl

theorem first_node : first.node = (start.validateAndApplyBlock library funding).2 := by rw [first]

theorem first_run : Run (Step library) (construct .regtest ([] : List (Bytes × Bytes)))
    ([] ++ [.validateAndApplyBlock funding]) first := by
  have recorded : acceptedBy library start (.validateAndApplyBlock funding) = [funding] := by
    rw [acceptedBy, if_pos funding_accepted]
  rw [start_eq]
  refine .step .start ⟨first_node, ?_⟩
  rw [recorded]
  rfl

theorem filler_refused : (first.node.validateAndApplyBlock library filler).1 ≠ some true := by
  intro accepted
  have follows := (ChainState.validateBlock_eq_true.mp
    (Node.validateAndApplyBlock_eq_true.mp accepted).1).2.1
  have chainState := Node.accepted_block_chainState (Node.MaturedCoin.step_accepted funding_accepted) rfl
  rw [first_node, chainState] at follows
  have isTip : zeroHash = funding.getHash := follows
  rw [BlockValidator.DoubleSpend.funding_getHash] at isTip
  exact absurd isTip (by decide)

theorem second_node : second.node = (first.node.validateAndApplyBlock library filler).2 := by
  rw [second]

theorem second_run : Run (Step library) (construct .regtest ([] : List (Bytes × Bytes)))
    ([] ++ [.validateAndApplyBlock funding] ++ [.validateAndApplyBlock filler]) second := by
  have recorded : acceptedBy library first.node (.validateAndApplyBlock filler) = [] := by
    rw [acceptedBy, if_neg filler_refused]
  refine .step first_run ⟨second_node, ?_⟩
  rw [recorded]
  rfl

def strings : List Bytes :=
  [funding.header.serialize, fundingCoinbase.serialize, filler.header.serialize,
    fillerCoinbase.serialize]

theorem strings_apart : (strings.map SHA256d.hash256d).Nodup ∧
    filler.getHash ≠ zeroHash := by
  unfold Block.getHash BlockHeader.getHash
  rw [show SHA256d.hash256d = _ from funext SHA256d.hash256d_eq_words]
  decide +kernel

theorem binding : Binding ([funding] ++ [funding, filler]) where
  collisionFree := by
    have within : ∀ data ∈ hashedStrings ([funding] ++ [funding, filler]), data ∈ strings := by
      decide +kernel
    intro data member other memberOther same
    exact List.inj_on_of_nodup_map strings_apart.1 (within data member) (within other memberOther) same
  notZero := by
    have different : funding.getHash ≠ zeroHash := by
      rw [BlockValidator.DoubleSpend.funding_getHash]
      decide
    simp only [List.singleton_append, List.forall_mem_cons]
    exact ⟨different, different, strings_apart.2, nofun⟩
  notPair := by
    intro block _ tx _ member
    cases member

theorem limits : ∀ block ∈ [funding] ++ [funding, filler], block.WithinLimits := by
  have small (block : Block) (member : block ∈ [funding, filler]) : block.WithinLimits := by
    unfold Block.WithinLimits Transaction.WithinLimits Block.CountWithinLimits
    revert block
    decide
  simp only [List.singleton_append, List.forall_mem_cons]
  exact ⟨small funding (by decide), small funding (by decide), small filler (by decide), nofun⟩

theorem second_tip : second.node.chain.tipHash = first.node.chain.tipHash := by
  rcases first.node.validateAndApplyBlock_cases library filler with
    ⟨_, chain, _, result, _, tipHash, _⟩ | ⟨_, _, _, _, _, result⟩
  · rw [second_node, result]
    exact tipHash
  · exact absurd (congrArg Prod.fst result) filler_refused

end TwoNodes

end Recorded

end Parthenon
