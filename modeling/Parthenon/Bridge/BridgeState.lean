import Parthenon.Crypto.Schnorr
import Parthenon.Storage.BlockStorage
import Mathlib.Data.Finset.Card

namespace Parthenon.Bridge

open Library Crypto Storage

/-! # Cross-chain messages

What relayers carry between the chains: the intent a user records on one side and
the signed message that the other side executes.
-/

/-- A chain identifier, any value of the enumeration's 32-bit type. -/
@[ext] structure ChainId where
  value : UInt32
deriving DecidableEq, Repr

namespace ChainId

def talanton : ChainId := ⟨1001⟩

def drachma : ChainId := ⟨1002⟩

def obolos : ChainId := ⟨1003⟩

end ChainId

/-- A compressed key is a prefix byte and the x coordinate. -/
structure ValidatorSignature where
  signature : Signature
  publicKey : FixedBytes 33
deriving DecidableEq, Repr

/-- The key without its prefix byte. -/
def ValidatorSignature.xonlyKey (vs : ValidatorSignature) : PublicKey :=
  ⟨vs.publicKey.bytes.drop 1, by rw [List.length_drop, vs.publicKey.length_eq]⟩

structure CrossChainMessage where
  originChainId : ChainId
  destinationChainId : ChainId
  messageNonce : UInt64
  blockHeight : UInt64
  timestamp : UInt64
  payloadHash : Hash
  payload : Bytes
  stateRoot : Hash
  proof : List Bytes
  validatorSignatures : List ValidatorSignature
deriving DecidableEq, Repr

structure BridgeTransferIntent where
  originChainId : ChainId
  destinationChainId : ChainId
  senderAddress : Bytes
  recipientAddress : Bytes
  tokenSymbol : Bytes
  wrappedTokenSymbol : Bytes
  amountBaseUnits : UInt64
  nonce : UInt64
  lockTxHash : Hash
  lockBlockHeight : UInt64
deriving DecidableEq, Repr

/-- The first eight bytes of a payload as a number, zero for a shorter one. -/
def decodeAmountFromPayload (payload : Bytes) : UInt64 :=
  if payload.length < 8 then 0 else UInt64.ofNat (ofLittleEndian (payload.take 8))

namespace CrossChainMessage

variable (message : CrossChainMessage)

def amount : UInt64 := decodeAmountFromPayload message.payload

/-- What the validators sign: the payload only through the hash the message states. -/
def commitmentBytes : Bytes :=
  littleEndian 4 message.originChainId.value.toNat ++
    (littleEndian 4 message.destinationChainId.value.toNat ++
      (littleEndian 8 message.messageNonce.toNat ++
        (message.payloadHash.bytes ++ message.stateRoot.bytes)))

def computeMessageCommitment : Hash := SHA256d.hash256d message.commitmentBytes

end CrossChainMessage

/-! ## The bridges

A bridge locks native tokens on its home chain and mints wrapped ones on the
chain away from it; burning those unlocks the native ones again.  The two bridges
are the same operations between different chains.
-/

inductive BridgeResult
  | ok
  | errInvalidProof
  | errReplay
  | errInsufficientConf
  | errAmountZero
  | errSupplyOverflow
  | errInvalidChain
  | errInsufficientSignatures
deriving DecidableEq, Repr

/-- The state of either bridge: locked native and minted wrapped tokens. -/
structure BridgeState where
  processedNonceKeys : Finset Bytes
  totalLocked : UInt64
  totalMinted : UInt64
  trustedValidatorPubkeys : Finset PublicKey
  minValidatorSigs : UInt32
deriving DecidableEq

/-- The chains of a bridge, and how deep a block has to be before it counts. -/
structure Lane where
  home : ChainId
  away : ChainId
  minConfirmations : UInt32
deriving DecidableEq, Repr

def makeNonceKey (sender : Bytes) (nonce : UInt64) : Bytes :=
  sender ++ (text [':'] ++ decimal nonce.toNat)

/-- The siblings are always on the right. -/
def verifyMerkleProof (leafHash : Hash) (proofNodes : List Bytes) (expectedRoot : Hash) : Bool :=
  proofNodes.foldl (fun current sibling => SHA256d.hash256d (current.bytes ++ sibling)) leafHash ==
    expectedRoot

namespace BridgeState

variable (secp : Secp256k1) (state : BridgeState)

/-- A signature of a trusted key that verifies. -/
def countsSignature (commit : Hash) (vs : ValidatorSignature) : Bool :=
  vs.xonlyKey ∈ state.trustedValidatorPubkeys && Schnorr.verify secp vs.xonlyKey commit vs.signature

/-- Counts signatures on 32 bits. -/
def verifyValidatorQuorum (message : CrossChainMessage) : Bool :=
  let commit := message.computeMessageCommitment
  let validCount : UInt32 := message.validatorSignatures.foldl
    (fun count vs => if state.countsSignature secp commit vs then count + 1 else count) 0
  validCount ≥ state.minValidatorSigs

/-- The key of a message: its origin in decimal stands for the sender. -/
def messageKey (message : CrossChainMessage) : Bytes :=
  makeNonceKey (decimal message.originChainId.value.toNat) message.messageNonce

/-- The checks that a message from one chain to another passes before it is
executed.  The sum of heights wraps. -/
def checkMessage (origin destination : ChainId) (minConfirmations : UInt32)
    (message : CrossChainMessage) (currentHeight lockHeight : UInt64) : Except BridgeResult Bytes :=
  if message.originChainId ≠ origin ∨ message.destinationChainId ≠ destination then
    .error .errInvalidChain
  else if currentHeight < lockHeight + minConfirmations.toUInt64 then .error .errInsufficientConf
  else if messageKey message ∈ state.processedNonceKeys then .error .errReplay
  else if !state.verifyValidatorQuorum secp message then .error .errInsufficientSignatures
  else if !verifyMerkleProof message.payloadHash message.proof message.stateRoot then
    .error .errInvalidProof
  else .ok (messageKey message)

/-- Lock native tokens at home. -/
def recordLock (lane : Lane) (intent : BridgeTransferIntent) : BridgeResult × BridgeState :=
  if intent.originChainId ≠ lane.home ∨ intent.destinationChainId ≠ lane.away then
    (.errInvalidChain, state)
  else if intent.amountBaseUnits = 0 then (.errAmountZero, state)
  else if intent.amountBaseUnits > 0xffffffffffffffff - state.totalLocked then
    (.errSupplyOverflow, state)
  else
    let key := makeNonceKey intent.senderAddress intent.nonce
    if key ∈ state.processedNonceKeys then (.errReplay, state)
    else
      (.ok,
        { state with
          processedNonceKeys := insert key state.processedNonceKeys
          totalLocked := state.totalLocked + intent.amountBaseUnits })

/-- Unlock native tokens for burned ones.  An amount that is not locked is not paid. -/
def processBurnUnlock (lane : Lane) (message : CrossChainMessage) (currentHeight lockHeight : UInt64) :
    BridgeResult × BridgeState :=
  match state.checkMessage secp lane.away lane.home lane.minConfirmations message currentHeight
    lockHeight with
  | .error result => (result, state)
  | .ok key =>
      (.ok,
        { state with
          processedNonceKeys := insert key state.processedNonceKeys
          totalLocked :=
            if message.amount > 0 ∧ message.amount ≤ state.totalLocked then
              state.totalLocked - message.amount
            else state.totalLocked })

/-- Mint wrapped tokens for locked ones.  The difference of the totals wraps. -/
def processLockMint (lane : Lane) (message : CrossChainMessage) (currentHeight lockHeight : UInt64) :
    BridgeResult × BridgeState :=
  match state.checkMessage secp lane.home lane.away lane.minConfirmations message currentHeight
    lockHeight with
  | .error result => (result, state)
  | .ok key =>
      if message.amount > 0 then
        if message.amount > state.totalLocked - state.totalMinted then (.errSupplyOverflow, state)
        else if message.amount > 0xffffffffffffffff - state.totalMinted then
          (.errSupplyOverflow, state)
        else
          (.ok,
            { state with
              processedNonceKeys := insert key state.processedNonceKeys
              totalMinted := state.totalMinted + message.amount })
      else (.ok, { state with processedNonceKeys := insert key state.processedNonceKeys })

/-- Burn wrapped tokens.  An amount that is not minted is not taken off. -/
def recordBurn (lane : Lane) (intent : BridgeTransferIntent) : BridgeResult × BridgeState :=
  if intent.originChainId ≠ lane.away ∨ intent.destinationChainId ≠ lane.home then
    (.errInvalidChain, state)
  else if intent.amountBaseUnits = 0 then (.errAmountZero, state)
  else
    let key := makeNonceKey intent.senderAddress intent.nonce
    if key ∈ state.processedNonceKeys then (.errReplay, state)
    else
      (.ok,
        { state with
          processedNonceKeys := insert key state.processedNonceKeys
          totalMinted :=
            if intent.amountBaseUnits ≤ state.totalMinted then
              state.totalMinted - intent.amountBaseUnits
            else state.totalMinted })

end BridgeState

/-! ### TALANTON and DRACHMA -/
namespace L1L2

def kMinL1Confirmations : UInt32 := 6

def lane : Lane := ⟨.talanton, .drachma, kMinL1Confirmations⟩

variable (secp : Secp256k1) (state : BridgeState)

def recordTltLock (intent : BridgeTransferIntent) : BridgeResult × BridgeState :=
  state.recordLock lane intent

def processWtltBurnUnlock (message : CrossChainMessage) (currentL1Height lockL1Height : UInt64) :
    BridgeResult × BridgeState :=
  state.processBurnUnlock secp lane message currentL1Height lockL1Height

def processTltLockMint (message : CrossChainMessage) (currentL1Height lockL1Height : UInt64) :
    BridgeResult × BridgeState :=
  state.processLockMint secp lane message currentL1Height lockL1Height

def recordWtltBurn (intent : BridgeTransferIntent) : BridgeResult × BridgeState :=
  state.recordBurn lane intent

end L1L2

/-! ### DRACHMA and OBOLOS -/
namespace L2L3

def kMinL2Confirmations : UInt32 := 10

def lane : Lane := ⟨.drachma, .obolos, kMinL2Confirmations⟩

variable (secp : Secp256k1) (state : BridgeState)

def recordDrcLock (intent : BridgeTransferIntent) : BridgeResult × BridgeState :=
  state.recordLock lane intent

def processWdrcBurnUnlock (message : CrossChainMessage) (currentL2Height lockL2Height : UInt64) :
    BridgeResult × BridgeState :=
  state.processBurnUnlock secp lane message currentL2Height lockL2Height

def processDrcLockMint (message : CrossChainMessage) (currentL2Height lockL2Height : UInt64) :
    BridgeResult × BridgeState :=
  state.processLockMint secp lane message currentL2Height lockL2Height

def recordWdrcBurn (intent : BridgeTransferIntent) : BridgeResult × BridgeState :=
  state.recordBurn lane intent

end L2L3

/-! ### Calls -/

inductive Crossing
  | talantonDrachma | drachmaObolos
deriving DecidableEq, Repr

def Crossing.lane : Crossing → Lane
  | .talantonDrachma => L1L2.lane
  | .drachmaObolos => L2L3.lane

inductive BridgeCall
  | lock (intent : BridgeTransferIntent)
  | unlock (message : CrossChainMessage) (currentHeight lockHeight : UInt64)
  | mint (message : CrossChainMessage) (currentHeight lockHeight : UInt64)
  | burn (intent : BridgeTransferIntent)
deriving DecidableEq, Repr

/-- The eight operations: four of each bridge. -/
def Crossing.apply (secp : Secp256k1) (crossing : Crossing) (state : BridgeState)
    (call : BridgeCall) : BridgeResult × BridgeState :=
  match crossing, call with
  | .talantonDrachma, .lock intent => L1L2.recordTltLock state intent
  | .talantonDrachma, .unlock message currentHeight lockHeight =>
      L1L2.processWtltBurnUnlock secp state message currentHeight lockHeight
  | .talantonDrachma, .mint message currentHeight lockHeight =>
      L1L2.processTltLockMint secp state message currentHeight lockHeight
  | .talantonDrachma, .burn intent => L1L2.recordWtltBurn state intent
  | .drachmaObolos, .lock intent => L2L3.recordDrcLock state intent
  | .drachmaObolos, .unlock message currentHeight lockHeight =>
      L2L3.processWdrcBurnUnlock secp state message currentHeight lockHeight
  | .drachmaObolos, .mint message currentHeight lockHeight =>
      L2L3.processDrcLockMint secp state message currentHeight lockHeight
  | .drachmaObolos, .burn intent => L2L3.recordWdrcBurn state intent

end Parthenon.Bridge
