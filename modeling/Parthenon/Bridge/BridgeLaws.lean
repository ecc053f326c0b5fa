import Parthenon.Bridge.BridgeState
import Parthenon.Library.Sums

namespace Parthenon.Bridge

open Library Crypto Storage

/-! # What a call of a bridge does

A refused call leaves the state.  An accepted one records its key and books its
amount in one of the two totals, or in none.
-/

namespace BridgeCall

/-- The amount of an intent or of a message's payload. -/
def amount : BridgeCall → UInt64
  | lock intent => intent.amountBaseUnits
  | unlock message _ _ => message.amount
  | mint message _ _ => message.amount
  | burn intent => intent.amountBaseUnits

/-- The key that the call is recorded under. -/
def key : BridgeCall → Bytes
  | lock intent => makeNonceKey intent.senderAddress intent.nonce
  | unlock message _ _ => BridgeState.messageKey message
  | mint message _ _ => BridgeState.messageKey message
  | burn intent => makeNonceKey intent.senderAddress intent.nonce

end BridgeCall

namespace BridgeState

variable {secp : Secp256k1} (state : BridgeState)

/-- What a message has to be for its checks to pass. -/
structure Passes (secp : Secp256k1) (origin destination : ChainId) (minConfirmations : UInt32)
    (message : CrossChainMessage) (currentHeight lockHeight : UInt64) : Prop where
  originated : message.originChainId = origin
  destined : message.destinationChainId = destination
  confirmed : ¬ currentHeight < lockHeight + minConfirmations.toUInt64
  unprocessed : messageKey message ∉ state.processedNonceKeys
  quorum : state.verifyValidatorQuorum secp message = true
  proven : verifyMerkleProof message.payloadHash message.proof message.stateRoot = true

variable {origin destination : ChainId} {minConfirmations : UInt32} {message : CrossChainMessage}
  {currentHeight lockHeight : UInt64}

theorem checkMessage_cases :
    (∃ result,
      state.checkMessage secp origin destination minConfirmations message currentHeight lockHeight =
        .error result ∧ result ≠ .ok) ∨
    (state.Passes secp origin destination minConfirmations message currentHeight lockHeight ∧
      state.checkMessage secp origin destination minConfirmations message currentHeight lockHeight =
        .ok (messageKey message)) := by
  unfold checkMessage
  split
  · exact .inl ⟨_, rfl, nofun⟩
  rename_i chains
  split
  · exact .inl ⟨_, rfl, nofun⟩
  rename_i confirmed
  split
  · exact .inl ⟨_, rfl, nofun⟩
  rename_i unprocessed
  cases quorum : state.verifyValidatorQuorum secp message with
  | false => exact .inl ⟨_, rfl, nofun⟩
  | true =>
      cases proven : verifyMerkleProof message.payloadHash message.proof message.stateRoot with
      | false => exact .inl ⟨_, rfl, nofun⟩
      | true =>
          obtain ⟨originated, destined⟩ := not_or.mp chains
          exact .inr ⟨⟨Decidable.not_not.mp originated, Decidable.not_not.mp destined, confirmed,
            unprocessed, quorum, proven⟩, rfl⟩

theorem checkMessage_of_passes
    (passes : state.Passes secp origin destination minConfirmations message currentHeight lockHeight) :
    state.checkMessage secp origin destination minConfirmations message currentHeight lockHeight =
      .ok (messageKey message) := by
  unfold checkMessage
  rw [if_neg (by simp [passes.originated, passes.destined]), if_neg passes.confirmed,
    if_neg passes.unprocessed, if_neg (by simp [passes.quorum]), if_neg (by simp [passes.proven])]

end BridgeState

/-! ## Calls -/

/-- An amount that a mint refuses: above what is locked and not minted, or above
what the total can still take. -/
def BridgeState.Unmintable (state : BridgeState) (amount : UInt64) : Prop :=
  state.totalLocked - state.totalMinted < amount ∨ 0xffffffffffffffff - state.totalMinted < amount

/-- What a call has to be to be accepted. -/
inductive BridgeState.Accepts (secp : Secp256k1) (lane : Lane) (state : BridgeState) :
    BridgeCall → Prop
  | lock {intent : BridgeTransferIntent} (originated : intent.originChainId = lane.home)
      (destined : intent.destinationChainId = lane.away) (positive : intent.amountBaseUnits ≠ 0)
      (fits : intent.amountBaseUnits ≤ 0xffffffffffffffff - state.totalLocked)
      (unprocessed : (BridgeCall.lock intent).key ∉ state.processedNonceKeys) :
      Accepts secp lane state (.lock intent)
  | unlock {message : CrossChainMessage} {currentHeight lockHeight : UInt64}
      (passes : state.Passes secp lane.away lane.home lane.minConfirmations message currentHeight
        lockHeight) : Accepts secp lane state (.unlock message currentHeight lockHeight)
  | mint {message : CrossChainMessage} {currentHeight lockHeight : UInt64}
      (passes : state.Passes secp lane.home lane.away lane.minConfirmations message currentHeight
        lockHeight)
      (mintable : ¬ state.Unmintable message.amount) :
      Accepts secp lane state (.mint message currentHeight lockHeight)
  | burn {intent : BridgeTransferIntent} (originated : intent.originChainId = lane.away)
      (destined : intent.destinationChainId = lane.home) (positive : intent.amountBaseUnits ≠ 0)
      (unprocessed : (BridgeCall.burn intent).key ∉ state.processedNonceKeys) :
      Accepts secp lane state (.burn intent)

namespace BridgeState

variable (secp : Secp256k1) (lane : Lane) (state : BridgeState)

def lockedAfter : BridgeCall → UInt64
  | .lock intent => state.totalLocked + intent.amountBaseUnits
  | .unlock message _ _ =>
      if message.amount > 0 ∧ message.amount ≤ state.totalLocked then
        state.totalLocked - message.amount
      else state.totalLocked
  | .mint _ _ _ => state.totalLocked
  | .burn _ => state.totalLocked

def mintedAfter : BridgeCall → UInt64
  | .lock _ => state.totalMinted
  | .unlock _ _ _ => state.totalMinted
  | .mint message _ _ => state.totalMinted + message.amount
  | .burn intent =>
      if intent.amountBaseUnits ≤ state.totalMinted then state.totalMinted - intent.amountBaseUnits
      else state.totalMinted

/-- The state after an accepted call. -/
def booked (call : BridgeCall) : BridgeState :=
  { state with
    processedNonceKeys := insert call.key state.processedNonceKeys
    totalLocked := state.lockedAfter call
    totalMinted := state.mintedAfter call }

/-- A result and a state after a call: refused and unchanged, or accepted and booked. -/
def Outcome (call : BridgeCall) (outcome : BridgeResult × BridgeState) : Prop :=
  (∃ result, outcome = (result, state) ∧ result ≠ .ok) ∨
    state.Accepts secp lane call ∧ outcome = (.ok, state.booked call)

theorem recordLock_outcome (intent : BridgeTransferIntent) :
    state.Outcome secp lane (.lock intent) (state.recordLock lane intent) := by
  unfold recordLock
  split
  · exact .inl ⟨_, rfl, nofun⟩
  rename_i chains
  split
  · exact .inl ⟨_, rfl, nofun⟩
  rename_i positive
  split
  · exact .inl ⟨_, rfl, nofun⟩
  rename_i fits
  dsimp only
  split
  · exact .inl ⟨_, rfl, nofun⟩
  rename_i unprocessed
  obtain ⟨originated, destined⟩ := not_or.mp chains
  exact .inr ⟨.lock (Decidable.not_not.mp originated) (Decidable.not_not.mp destined) positive
    (UInt64.not_lt.mp fits) unprocessed, rfl⟩

theorem processBurnUnlock_outcome (message : CrossChainMessage) (currentHeight lockHeight : UInt64) :
    state.Outcome secp lane (.unlock message currentHeight lockHeight)
      (state.processBurnUnlock secp lane message currentHeight lockHeight) := by
  unfold processBurnUnlock
  obtain ⟨result, failed, refused⟩ | ⟨passes, passed⟩ := state.checkMessage_cases
  · rw [failed]
    exact .inl ⟨result, rfl, refused⟩
  · rw [passed]
    exact .inr ⟨.unlock passes, rfl⟩

section

variable {secp lane} {message : CrossChainMessage} {currentHeight lockHeight : UInt64}
  (passes : state.Passes secp lane.home lane.away lane.minConfirmations message currentHeight lockHeight)

include passes

theorem processLockMint_unmintable (unmintable : state.Unmintable message.amount) :
    state.processLockMint secp lane message currentHeight lockHeight = (.errSupplyOverflow, state) := by
  have positive : message.amount > 0 := by
    rcases unmintable with above | above
    · exact Nat.lt_of_le_of_lt (Nat.zero_le _) above
    · exact Nat.lt_of_le_of_lt (Nat.zero_le _) above
  unfold processLockMint
  rw [state.checkMessage_of_passes passes]
  dsimp only
  rw [if_pos positive]
  split
  · rfl
  · rename_i backed
    exact if_pos (unmintable.resolve_left backed)

theorem processLockMint_mintable (mintable : ¬ state.Unmintable message.amount) :
    state.processLockMint secp lane message currentHeight lockHeight =
      (.ok, state.booked (.mint message currentHeight lockHeight)) := by
  obtain ⟨backed, fits⟩ := not_or.mp mintable
  unfold processLockMint
  rw [state.checkMessage_of_passes passes]
  dsimp only
  by_cases positive : message.amount > 0
  · rw [if_pos positive, if_neg backed, if_neg fits]
    rfl
  · rw [if_neg positive]
    have zero : message.amount = 0 := UInt64.le_zero_iff.mp (UInt64.not_lt.mp positive)
    simp only [booked, lockedAfter, mintedAfter, zero, UInt64.add_zero]
    rfl

end

theorem processLockMint_outcome (message : CrossChainMessage) (currentHeight lockHeight : UInt64) :
    state.Outcome secp lane (.mint message currentHeight lockHeight)
      (state.processLockMint secp lane message currentHeight lockHeight) := by
  obtain ⟨result, failed, refused⟩ | ⟨passes, -⟩ := state.checkMessage_cases
  · unfold processLockMint
    rw [failed]
    exact .inl ⟨result, rfl, refused⟩
  · by_cases unmintable : state.Unmintable message.amount
    · exact .inl ⟨_, state.processLockMint_unmintable passes unmintable, nofun⟩
    · exact .inr ⟨.mint passes unmintable, state.processLockMint_mintable passes unmintable⟩

theorem recordBurn_outcome (intent : BridgeTransferIntent) :
    state.Outcome secp lane (.burn intent) (state.recordBurn lane intent) := by
  unfold recordBurn
  split
  · exact .inl ⟨_, rfl, nofun⟩
  rename_i chains
  split
  · exact .inl ⟨_, rfl, nofun⟩
  rename_i positive
  dsimp only
  split
  · exact .inl ⟨_, rfl, nofun⟩
  rename_i unprocessed
  obtain ⟨originated, destined⟩ := not_or.mp chains
  exact .inr ⟨.burn (Decidable.not_not.mp originated) (Decidable.not_not.mp destined) positive
    unprocessed, rfl⟩

end BridgeState

namespace Crossing

variable (secp : Secp256k1) (crossing : Crossing) (state : BridgeState) (call : BridgeCall)

theorem apply_outcome : state.Outcome secp crossing.lane call (crossing.apply secp state call) := by
  cases crossing with
  | talantonDrachma =>
      cases call with
      | lock intent => exact state.recordLock_outcome secp L1L2.lane intent
      | unlock message currentHeight lockHeight =>
          exact state.processBurnUnlock_outcome secp L1L2.lane message currentHeight lockHeight
      | mint message currentHeight lockHeight =>
          exact state.processLockMint_outcome secp L1L2.lane message currentHeight lockHeight
      | burn intent => exact state.recordBurn_outcome secp L1L2.lane intent
  | drachmaObolos =>
      cases call with
      | lock intent => exact state.recordLock_outcome secp L2L3.lane intent
      | unlock message currentHeight lockHeight =>
          exact state.processBurnUnlock_outcome secp L2L3.lane message currentHeight lockHeight
      | mint message currentHeight lockHeight =>
          exact state.processLockMint_outcome secp L2L3.lane message currentHeight lockHeight
      | burn intent => exact state.recordBurn_outcome secp L2L3.lane intent

variable {crossing state call}

theorem apply_eq_lane : crossing.apply secp state call =
    match call with
    | .lock intent => state.recordLock crossing.lane intent
    | .unlock message currentHeight lockHeight =>
        state.processBurnUnlock secp crossing.lane message currentHeight lockHeight
    | .mint message currentHeight lockHeight =>
        state.processLockMint secp crossing.lane message currentHeight lockHeight
    | .burn intent => state.recordBurn crossing.lane intent := by
  cases crossing <;> cases call <;> rfl

variable {secp}

theorem apply_of_accepts (accepts : state.Accepts secp crossing.lane call) :
    crossing.apply secp state call = (.ok, state.booked call) := by
  rw [apply_eq_lane]
  cases accepts with
  | lock originated destined positive fits unprocessed =>
      dsimp only
      unfold BridgeState.recordLock
      rw [if_neg (by simp [originated, destined]), if_neg positive, if_neg (UInt64.not_lt.mpr fits)]
      exact if_neg unprocessed
  | unlock passes =>
      dsimp only
      unfold BridgeState.processBurnUnlock
      rw [state.checkMessage_of_passes passes]
      rfl
  | mint passes mintable => exact state.processLockMint_mintable passes mintable
  | burn originated destined positive unprocessed =>
      dsimp only
      unfold BridgeState.recordBurn
      rw [if_neg (by simp [originated, destined]), if_neg positive]
      exact if_neg unprocessed

theorem apply_ok_iff : (crossing.apply secp state call).1 = .ok ↔
    state.Accepts secp crossing.lane call := by
  constructor
  · intro ok
    obtain ⟨result, refused, failed⟩ | ⟨accepts, -⟩ := crossing.apply_outcome secp state call
    · rw [refused] at ok
      exact absurd ok failed
    · exact accepts
  · intro accepts
    rw [apply_of_accepts accepts]

theorem apply_of_refused (refused : ¬ state.Accepts secp crossing.lane call) :
    (crossing.apply secp state call).2 = state := by
  obtain ⟨result, unchanged, -⟩ | ⟨accepts, -⟩ := crossing.apply_outcome secp state call
  · rw [unchanged]
  · exact absurd accepts refused

end Crossing

/-! A validator with a key, and what it signed for the first mint and the first unlock. -/
namespace SampleBridge

def key : PublicKey := .ofNat 32 0x9817f8165b81f259d928ce2ddbfc9b02070b87ce9562a055acbbdcf97e66be79

def signed (signature : Signature) : ValidatorSignature where
  signature := signature
  publicKey := .ofNat 33 0x9817f8165b81f259d928ce2ddbfc9b02070b87ce9562a055acbbdcf97e66be7902

def mintSignature : Signature :=
  .ofNat 64 0xfbf5798fb8b4d721fb925fae8745318158fa3f8533100daefbc447f26b59baa66a7206fc5a1dc8056c7e62a2c6cb1268eb32e8ed1344b52638632977565b2573

def unlockSignature : Signature :=
  .ofNat 64 0x6bd8b4de74022aac7bf284804f420f5de3c8eadb7bd30280813203b208b02ee1f95a31a64f5039283a2fa3b429cd7b653938c217b57f17d2f161b5673247ce4b

/-- The first message between two chains, with a one-leaf tree for its proof. -/
def message (origin destination : ChainId) (mark : UInt8) (amount : UInt64)
    (signature : Signature) : CrossChainMessage where
  originChainId := origin
  destinationChainId := destination
  messageNonce := 1
  blockHeight := 1
  timestamp := 1000001
  payloadHash := ⟨List.replicate 32 mark, List.length_replicate⟩
  payload := littleEndian 8 amount.toNat
  stateRoot := ⟨List.replicate 32 mark, List.length_replicate⟩
  proof := []
  validatorSignatures := [signed signature]

def mintMessage (amount : UInt64) : CrossChainMessage :=
  message .talanton .drachma 0xAB amount mintSignature

def unlockMessage (amount : UInt64) : CrossChainMessage :=
  message .drachma .talanton 0xCD amount unlockSignature

/-- A library that takes the two signatures for what they sign. -/
def library : Secp256k1 where
  Keypair := Empty
  XonlyPubkey := PublicKey
  ecSeckeyVerify _ := false
  keypairCreate _ := none
  keypairXonlyPub := nofun
  xonlyPubkeySerialize pubkey := some pubkey
  xonlyPubkeyParse pubkey := some pubkey
  schnorrsigSign32 _ := nofun
  schnorrsigVerify given commit pubkey := pubkey = key &&
    (given = mintSignature && commit = (mintMessage 0).computeMessageCommitment ||
      given = unlockSignature && commit = (unlockMessage 0).computeMessageCommitment)

/-- A new bridge that trusts the validator. -/
def opened : BridgeState := ⟨∅, 0, 0, {key}, 1⟩

def sender : Bytes := text "alice".toList

def intent (origin destination : ChainId) (amount : UInt64) : BridgeTransferIntent where
  originChainId := origin
  destinationChainId := destination
  senderAddress := sender
  recipientAddress := sender
  tokenSymbol := text "TLT".toList
  wrappedTokenSymbol := text "wTLT".toList
  amountBaseUnits := amount
  nonce := 1
  lockTxHash := zeroHash
  lockBlockHeight := 1

theorem message_amount (origin destination : ChainId) (mark : UInt8) (amount : UInt64)
    (signature : Signature) : (message origin destination mark amount signature).amount = amount := by
  unfold CrossChainMessage.amount decodeAmountFromPayload message
  dsimp only
  rw [littleEndian_length, if_neg (by decide), List.take_of_length_le (by rw [littleEndian_length]),
    ofLittleEndian_littleEndian, Nat.mod_eq_of_lt (show _ < 256 ^ 8 from amount.toNat_lt),
    UInt64.ofNat_toNat]

theorem mintMessage_amount (amount : UInt64) : (mintMessage amount).amount = amount :=
  message_amount _ _ _ _ _

theorem unlockMessage_amount (amount : UInt64) : (unlockMessage amount).amount = amount :=
  message_amount _ _ _ _ _

variable {state : BridgeState}

/-- The signature of the trusted validator counts. -/
theorem mintSignature_counts (trusted : state.trustedValidatorPubkeys = {key}) :
    state.countsSignature library (mintMessage 0).computeMessageCommitment (signed mintSignature) =
      true := by
  unfold BridgeState.countsSignature
  rw [trusted, show (signed mintSignature).xonlyKey = key by rfl]
  simp [Schnorr.verify, Schnorr.validatePublicKey, library, signed]

theorem unlockSignature_counts (trusted : state.trustedValidatorPubkeys = {key}) :
    state.countsSignature library (unlockMessage 0).computeMessageCommitment
      (signed unlockSignature) = true := by
  unfold BridgeState.countsSignature
  rw [trusted, show (signed unlockSignature).xonlyKey = key by rfl]
  simp [Schnorr.verify, Schnorr.validatePublicKey, library, signed]

theorem quorum_of_counts {message : CrossChainMessage} {vs : ValidatorSignature}
    (one : state.minValidatorSigs = 1) (carries : message.validatorSignatures = [vs])
    (counts : state.countsSignature library message.computeMessageCommitment vs = true) :
    state.verifyValidatorQuorum library message = true := by
  unfold BridgeState.verifyValidatorQuorum
  simp only [carries, List.foldl_cons, List.foldl_nil, counts, if_true, one]
  decide

theorem mintMessage_passes (trusted : state.trustedValidatorPubkeys = {key})
    (one : state.minValidatorSigs = 1)
    (unprocessed : BridgeState.messageKey (mintMessage 0) ∉ state.processedNonceKeys)
    (amount : UInt64) :
    state.Passes library .talanton .drachma 6 (mintMessage amount) 10 1 where
  originated := rfl
  destined := rfl
  confirmed := by decide
  unprocessed := unprocessed
  quorum := quorum_of_counts one rfl (mintSignature_counts trusted)
  proven := beq_self_eq_true _

theorem unlockMessage_passes (trusted : state.trustedValidatorPubkeys = {key})
    (one : state.minValidatorSigs = 1)
    (unprocessed : BridgeState.messageKey (unlockMessage 0) ∉ state.processedNonceKeys)
    (amount : UInt64) :
    state.Passes library .drachma .talanton 6 (unlockMessage amount) 10 1 where
  originated := rfl
  destined := rfl
  confirmed := by decide
  unprocessed := unprocessed
  quorum := quorum_of_counts one rfl (unlockSignature_counts trusted)
  proven := beq_self_eq_true _

end SampleBridge

end Parthenon.Bridge
