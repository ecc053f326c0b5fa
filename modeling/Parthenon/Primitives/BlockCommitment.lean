import Mathlib.Data.List.Nodup
import Parthenon.Crypto.Sha256Laws
import Parthenon.Primitives.Block

namespace Parthenon.Primitives

open Parthenon.Library Parthenon.Crypto

/-! # What a header commits to

The Merkle root in a header fixes the transactions of a valid block once their
number is fixed.  It does not fix their number: an odd level is padded with a
copy of its last node, so a list and the list with its tail repeated share a root.
-/

namespace MerkleTree

/-- SHA-256d has no collision among the strings hashed for these transactions. -/
def CollisionFree (first second : List Transaction) : Prop :=
  Set.InjOn SHA256d.hash256d
    (fun data => data ∈ hashedStrings first ∨ data ∈ hashedStrings second)

def SerializesApart (first second : List Transaction) : Prop :=
  Set.InjOn Transaction.serialize (fun tx => tx ∈ first ∨ tx ∈ second)

theorem serialize_mem_hashedStrings {transactions : List Transaction} {tx : Transaction}
    (member : tx ∈ transactions) : tx.serialize ∈ hashedStrings transactions :=
  List.mem_append_left _ (List.mem_map_of_mem member)

theorem pair_mem_hashedStrings {transactions : List Transaction} {pair : Hash × Hash}
    (combined : pair ∈ combinedPairs hashNodes (transactions.map Transaction.getTxID)) :
    pair.1.bytes ++ pair.2.bytes ∈ hashedStrings transactions :=
  List.mem_append_right _ (List.mem_map.mpr ⟨pair, combined, rfl⟩)

theorem nodeBytes_inj {first second : Hash × Hash}
    (same : first.1.bytes ++ first.2.bytes = second.1.bytes ++ second.2.bytes) : first = second := by
  have lengths : first.1.bytes.length = second.1.bytes.length := by
    rw [first.1.length_eq, second.1.length_eq]
  obtain ⟨left, right⟩ := List.append_inj same lengths
  exact Prod.ext (FixedBytes.ext left) (FixedBytes.ext right)

theorem hashNodes_injOn {first second : List Transaction} (free : CollisionFree first second) :
    Set.InjOn (fun pair : Hash × Hash => hashNodes pair.1 pair.2)
      (fun pair => pair ∈ combinedPairs hashNodes (first.map Transaction.getTxID) ∨
        pair ∈ combinedPairs hashNodes (second.map Transaction.getTxID)) := by
  have hashed (pair : Hash × Hash)
      (member : pair ∈ combinedPairs hashNodes (first.map Transaction.getTxID) ∨
        pair ∈ combinedPairs hashNodes (second.map Transaction.getTxID)) :
      pair.1.bytes ++ pair.2.bytes ∈ hashedStrings first ∨
        pair.1.bytes ++ pair.2.bytes ∈ hashedStrings second := by
    rcases member with inFirst | inSecond
    · exact .inl (pair_mem_hashedStrings inFirst)
    · exact .inr (pair_mem_hashedStrings inSecond)
  intro pair member other memberOther same
  exact nodeBytes_inj (free (hashed pair member) (hashed other memberOther) same)

theorem getTxID_lists_inj {first second : List Transaction} (free : CollisionFree first second)
    (apart : SerializesApart first second)
    (same : first.map Transaction.getTxID = second.map Transaction.getTxID) : first = second := by
  refine map_inj_between (fun tx member other memberOther sameID => ?_) same
  have serialized := free (.inl (serialize_mem_hashedStrings member))
    (.inr (serialize_mem_hashedStrings memberOther)) sameID
  exact apart (.inl member) (.inr memberOther) serialized

theorem root_inj {first second : List Transaction} (free : CollisionFree first second)
    (apart : SerializesApart first second) (sameLength : first.length = second.length)
    (same : calculateTransactionsRoot first = calculateTransactionsRoot second) :
    first = second := by
  apply getTxID_lists_inj free apart
  exact pairRoot_inj hashNodes zeroHash (hashNodes_injOn free) (by simpa using sameLength) same

end MerkleTree

namespace PaddedBlock

def output : TxOutput :=
  { value := { asset := .talanton, amount := 1 }, pubkeyScript := ⟨[1], ByteVector.one_fits⟩ }

def coinbase : Transaction where
  version := 1
  inputs := [{ prevout := ⟨zeroHash, coinbaseVoutIndex⟩, signatureScript := .empty,
               sequence := 0xFFFFFFFF }]
  outputs := [output]
  locktime := 0

/-- An ordinary transaction that spends output `vout` of some earlier one. -/
def spend (vout : UInt32) : Transaction where
  version := 1
  inputs := [{ prevout := ⟨zeroHash, vout⟩, signatureScript := .empty, sequence := 0xFFFFFFFF }]
  outputs := [output]
  locktime := 0

def transactions : List Transaction := [coinbase, spend 0, spend 1]

/-- The transactions with the padding of the odd level written out. -/
def paddedTransactions : List Transaction := [coinbase, spend 0, spend 1, spend 1]

def coinbaseID : Hash :=
  .ofNat 32 0x3555f5b2dd9d5ba9394c80977cbe010678fbcbb38006a24ba1527ca50e3ebdf5

def firstID : Hash :=
  .ofNat 32 0xae7b881a71a57f495dee74835972c279b5f2855ac22659c3dd78a7537c831753

def secondID : Hash :=
  .ofNat 32 0x3c4d59c38dc4df2fa1c5bc937034f143668f9ad0a0b1814ff28eeae0ef6d6049

def leftNode : Hash :=
  .ofNat 32 0x98ca45f3ec50912a116bb459d7a224edd99065bba59f1623b62063e4a0e48fc1

def rightNode : Hash :=
  .ofNat 32 0x266eb4d5c08a23f26677137c4545db05b62fe97933adb00dc67da6d2b2a8324c

def root : Hash :=
  .ofNat 32 0x1da8e5c529d540bd45bca2080d540705ac449f3c4ac1bb2acdf537fccadae378

def header : BlockHeader where
  version := 1
  prevBlockHash := zeroHash
  merkleRoot := root
  timestamp := 0
  bits := 0x20ffffff
  nonce := 0
  baseFeePerGas := 1000000000
  gasUsed := 0
  gasLimit := 30000000

def block : Block := { header, transactions }

def paddedBlock : Block := { header, transactions := paddedTransactions }

/-- What is hashed for either block, evaluated on words at once. -/
theorem hashes :
    coinbase.getTxID = coinbaseID ∧ (spend 0).getTxID = firstID ∧ (spend 1).getTxID = secondID ∧
      MerkleTree.hashNodes coinbaseID firstID = leftNode ∧
      MerkleTree.hashNodes secondID secondID = rightNode ∧
      MerkleTree.hashNodes leftNode rightNode = root ∧ header.meetsDifficultyTarget = true := by
  unfold BlockHeader.meetsDifficultyTarget MerkleTree.hashNodes Transaction.getTxID
    BlockHeader.getHash
  simp only [SHA256d.hash256d_eq_words]
  decide +kernel

theorem coinbase_getTxID : coinbase.getTxID = coinbaseID := hashes.1

theorem first_getTxID : (spend 0).getTxID = firstID := hashes.2.1

theorem second_getTxID : (spend 1).getTxID = secondID := hashes.2.2.1

theorem left_hash : MerkleTree.hashNodes coinbaseID firstID = leftNode := hashes.2.2.2.1

theorem right_hash : MerkleTree.hashNodes secondID secondID = rightNode := hashes.2.2.2.2.1

theorem root_hash : MerkleTree.hashNodes leftNode rightNode = root := hashes.2.2.2.2.2.1

theorem transactions_getTxID :
    transactions.map Transaction.getTxID = [coinbaseID, firstID, secondID] := by
  simp only [transactions, List.map_cons, List.map_nil, coinbase_getTxID, first_getTxID,
    second_getTxID]

theorem paddedTransactions_getTxID :
    paddedTransactions.map Transaction.getTxID = [coinbaseID, firstID, secondID, secondID] := by
  simp only [paddedTransactions, List.map_cons, List.map_nil, coinbase_getTxID, first_getTxID,
    second_getTxID]

def pairs : List (Hash × Hash) :=
  [(coinbaseID, firstID), (secondID, secondID), (leftNode, rightNode)]

theorem combined : combinedPairs MerkleTree.hashNodes [coinbaseID, firstID, secondID] = pairs := by
  simp [combinedPairs, buildPairs, nextLevel, levelPairs, left_hash, right_hash, pairs]

theorem paddedCombined :
    combinedPairs MerkleTree.hashNodes [coinbaseID, firstID, secondID, secondID] = pairs := by
  simp [combinedPairs, buildPairs, nextLevel, levelPairs, left_hash, right_hash, pairs]

theorem block_root : block.calculateMerkleRoot = root := by
  change pairRoot MerkleTree.hashNodes zeroHash (transactions.map Transaction.getTxID) = root
  rw [transactions_getTxID]
  simp [pairRoot, buildRoot, nextLevel, levelPairs, left_hash, right_hash, root_hash]

theorem paddedBlock_root : paddedBlock.calculateMerkleRoot = root := by
  change pairRoot MerkleTree.hashNodes zeroHash (paddedTransactions.map Transaction.getTxID) = root
  rw [paddedTransactions_getTxID]
  simp [pairRoot, buildRoot, nextLevel, levelPairs, left_hash, right_hash, root_hash]

theorem header_meetsDifficultyTarget : header.meetsDifficultyTarget = true := hashes.2.2.2.2.2.2

theorem block_isValid : block.isValid = true :=
  Block.isValid_iff.mpr ⟨by decide, by decide, block_root, header_meetsDifficultyTarget⟩

theorem paddedBlock_isValid : paddedBlock.isValid = true :=
  Block.isValid_iff.mpr ⟨by decide, by decide, paddedBlock_root, header_meetsDifficultyTarget⟩

/-- The strings hashed for either block. -/
def strings : List Bytes :=
  [coinbase, spend 0, spend 1].map Transaction.serialize ++
    pairs.map fun pair => pair.1.bytes ++ pair.2.bytes

theorem strings_hash :
    strings.map SHA256d.hash256d = [coinbaseID, firstID, secondID, leftNode, rightNode, root] := by
  change [coinbase.getTxID, (spend 0).getTxID, (spend 1).getTxID,
    MerkleTree.hashNodes coinbaseID firstID, MerkleTree.hashNodes secondID secondID,
    MerkleTree.hashNodes leftNode rightNode] = _
  rw [coinbase_getTxID, first_getTxID, second_getTxID, left_hash, right_hash, root_hash]

theorem hash_injOn_strings : Set.InjOn SHA256d.hash256d (fun data => data ∈ strings) := by
  have apart : (strings.map SHA256d.hash256d).Nodup := by
    rw [strings_hash]
    decide +kernel
  intro data member other memberOther same
  exact List.inj_on_of_nodup_map apart member memberOther same

theorem collisionFree : MerkleTree.CollisionFree transactions paddedTransactions := by
  apply hash_injOn_strings.mono
  intro data member
  have inStrings (listed : data ∈ paddedTransactions.map Transaction.serialize ++
      pairs.map fun pair => pair.1.bytes ++ pair.2.bytes) : data ∈ strings := by
    simp only [paddedTransactions, strings, List.map_cons, List.map_nil, List.mem_append,
      List.mem_cons, List.not_mem_nil, or_false] at listed ⊢
    grind
  rcases member with inFirst | inSecond
  · rw [MerkleTree.hashedStrings, transactions_getTxID, combined] at inFirst
    exact inFirst
  · rw [MerkleTree.hashedStrings, paddedTransactions_getTxID, paddedCombined] at inSecond
    exact inStrings inSecond

theorem serializesApart : MerkleTree.SerializesApart transactions paddedTransactions := by
  have apart : ([coinbase, spend 0, spend 1].map Transaction.serialize).Nodup := by decide
  have inThree (tx : Transaction) (member : tx ∈ transactions ∨ tx ∈ paddedTransactions) :
      tx ∈ [coinbase, spend 0, spend 1] := by
    rcases member with inFirst | inSecond
    · exact inFirst
    · simpa [paddedTransactions] using inSecond
  intro tx member other memberOther same
  exact List.inj_on_of_nodup_map apart (inThree tx member) (inThree other memberOther) same

end PaddedBlock

end Parthenon.Primitives
