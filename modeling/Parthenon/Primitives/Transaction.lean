import Parthenon.Primitives.Asset
import Parthenon.Crypto.Sha256

namespace Parthenon.Primitives

open Parthenon.Library Parthenon.Crypto

def coinbaseVoutIndex : UInt32 := 0xFFFFFFFF

@[ext] structure OutPoint where
  txid : Hash
  vout : UInt32
deriving DecidableEq, Repr

namespace OutPoint

instance : Ord OutPoint where
  compare := compareLex (compareOn (·.txid)) (compareOn (·.vout))

instance : Std.TransOrd OutPoint :=
  inferInstanceAs (Std.TransCmp (compareLex (compareOn OutPoint.txid) (compareOn OutPoint.vout)))

instance : Std.LawfulEqOrd OutPoint where
  compare_self {_} := Std.ReflCmp.compare_self
  eq_of_compare {left right} same := by
    obtain ⟨txid, vout⟩ := compareLex_eq_eq.mp same
    exact OutPoint.ext (Std.LawfulEqOrd.eq_of_compare txid) (Std.LawfulEqOrd.eq_of_compare vout)

def serialize (outpoint : OutPoint) : Bytes :=
  outpoint.txid.bytes ++ littleEndian 4 outpoint.vout.toNat

end OutPoint

def writeCompactSize (size : Nat) : Bytes :=
  if size < 253 then [UInt8.ofNat size]
  else if size ≤ 0xFFFF then 253 :: littleEndian 2 size
  else if size ≤ 0xFFFFFFFF then 254 :: littleEndian 4 size
  else 255 :: littleEndian 8 size

@[ext] structure TxInput where
  prevout : OutPoint
  signatureScript : ByteVector
  sequence : UInt32
deriving DecidableEq, Repr

def TxInput.serialize (input : TxInput) : Bytes :=
  input.prevout.serialize ++ writeCompactSize input.signatureScript.size ++
    input.signatureScript.bytes ++ littleEndian 4 input.sequence.toNat

@[ext] structure TxOutput where
  value : AssetAmount
  pubkeyScript : ByteVector
deriving DecidableEq, Repr

namespace TxOutput

def isValid (output : TxOutput) : Bool := output.value.isValid && !output.pubkeyScript.bytes.isEmpty

def serialize (output : TxOutput) : Bytes :=
  output.value.serialize ++ writeCompactSize output.pubkeyScript.size ++ output.pubkeyScript.bytes

end TxOutput

/-- The public fields of a transaction. -/
@[ext] structure Transaction where
  version : UInt32
  inputs : List TxInput
  outputs : List TxOutput
  locktime : UInt32
deriving DecidableEq, Repr

namespace Transaction

def serialize (tx : Transaction) : Bytes :=
  littleEndian 4 tx.version.toNat ++
    writeCompactSize tx.inputs.length ++ tx.inputs.flatMap TxInput.serialize ++
    writeCompactSize tx.outputs.length ++ tx.outputs.flatMap TxOutput.serialize ++
    littleEndian 4 tx.locktime.toNat

def getTxID (tx : Transaction) : Hash := SHA256d.hash256d tx.serialize

/-- The input as it enters the signed message of input `inputIndex`: only the
other inputs lose their scripts. -/
def signingInput (inputIndex index : Nat) (input : TxInput) : TxInput :=
  if index ≠ inputIndex then { input with signatureScript := .empty } else input

def serializeForSigning (tx : Transaction) (inputIndex : Nat) : Bytes :=
  littleEndian 4 tx.version.toNat ++
    writeCompactSize tx.inputs.length ++
    (tx.inputs.mapIdx (signingInput inputIndex)).flatMap TxInput.serialize ++
    writeCompactSize tx.outputs.length ++ tx.outputs.flatMap TxOutput.serialize ++
    littleEndian 4 tx.locktime.toNat

def getSignatureHash (tx : Transaction) (inputIndex : Nat) : Hash :=
  SHA256.hash256 (tx.serializeForSigning inputIndex)

def isCoinbase (tx : Transaction) : Bool :=
  match tx.inputs with
  | [input] => input.prevout.vout = coinbaseVoutIndex && input.prevout.txid = zeroHash
  | _ => false

def prevouts (tx : Transaction) : List OutPoint := tx.inputs.map TxInput.prevout

def isValid (tx : Transaction) : Bool :=
  !tx.inputs.isEmpty && !tx.outputs.isEmpty && tx.outputs.all TxOutput.isValid &&
    (tx.isCoinbase || tx.prevouts.Nodup)

theorem isValid_iff {tx : Transaction} : tx.isValid = true ↔
    tx.inputs.isEmpty = false ∧ tx.outputs.isEmpty = false ∧
      (∀ output ∈ tx.outputs, output.isValid = true) ∧
      (tx.isCoinbase = true ∨ tx.prevouts.Nodup) := by
  simp only [isValid, Bool.and_eq_true, Bool.not_eq_true', List.all_eq_true, Bool.or_eq_true,
    decide_eq_true_eq, and_assoc]

theorem isValid_outputs {tx : Transaction} (valid : tx.isValid = true) :
    ∀ output ∈ tx.outputs, output.isValid = true := (isValid_iff.mp valid).2.2.1

theorem isValid_prevouts_nodup {tx : Transaction} (valid : tx.isValid = true)
    (ordinary : tx.isCoinbase = false) : tx.prevouts.Nodup :=
  (isValid_iff.mp valid).2.2.2.resolve_left (Bool.eq_false_iff.mp ordinary)

/-- The outpoint of output `vout`, whose index the chain code counts in 32 bits. -/
def outpoint (tx : Transaction) (vout : Nat) : OutPoint := ⟨tx.getTxID, UInt32.ofNat vout⟩

end Transaction

/-- A transaction object: the public fields with the mutable caches beside them. -/
@[ext] structure CachedTransaction extends Transaction where
  cachedTxID : Option Hash
  cachedSerializedSize : Option Nat
deriving DecidableEq, Repr

namespace CachedTransaction

/-- A transaction whose caches were never filled. -/
def ofTransaction (tx : Transaction) : CachedTransaction :=
  { tx with cachedTxID := none, cachedSerializedSize := none }

/-- The answer of `GetTxID`, and the object with the caches that call leaves. -/
def getTxID (tx : CachedTransaction) : Hash × CachedTransaction :=
  match tx.cachedTxID with
  | some txid => (txid, tx)
  | none =>
      let serialized := tx.serialize
      let txid := SHA256d.hash256d serialized
      (txid, { tx with cachedTxID := some txid, cachedSerializedSize := some serialized.length })

def getSerializedSize (tx : CachedTransaction) : Nat × CachedTransaction :=
  match tx.cachedSerializedSize with
  | some size => (size, tx)
  | none =>
      let size := tx.serialize.length
      (size, { tx with cachedSerializedSize := some size })

theorem getTxID_cached (tx : CachedTransaction) : tx.getTxID.2.cachedTxID = some tx.getTxID.1 := by
  unfold getTxID
  cases cached : tx.cachedTxID with
  | none => rfl
  | some txid => exact cached

theorem getTxID_of_cached {tx : CachedTransaction} {txid : Hash} (cached : tx.cachedTxID = some txid) :
    tx.getTxID.1 = txid := by
  unfold getTxID
  rw [cached]

/-- The object that a call leaves answers the same again. -/
theorem getTxID_again (tx : CachedTransaction) : tx.getTxID.2.getTxID = tx.getTxID := by
  unfold getTxID
  cases cached : tx.cachedTxID with
  | none => rfl
  | some txid => simp only [cached]

@[simp] theorem getTxID_toTransaction (tx : CachedTransaction) :
    tx.getTxID.2.toTransaction = tx.toTransaction := by
  unfold getTxID
  cases tx.cachedTxID with
  | none => rfl
  | some txid => rfl

@[simp] theorem getSerializedSize_toTransaction (tx : CachedTransaction) :
    tx.getSerializedSize.2.toTransaction = tx.toTransaction := by
  unfold getSerializedSize
  cases tx.cachedSerializedSize with
  | none => rfl
  | some size => rfl

@[simp] theorem getSerializedSize_cachedTxID (tx : CachedTransaction) :
    tx.getSerializedSize.2.cachedTxID = tx.cachedTxID := by
  unfold getSerializedSize
  cases tx.cachedSerializedSize with
  | none => rfl
  | some size => rfl

end CachedTransaction

end Parthenon.Primitives
