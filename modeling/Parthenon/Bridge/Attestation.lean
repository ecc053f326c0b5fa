import Parthenon.Bridge.Solvency
import Parthenon.Library.Quorum

namespace Parthenon.Bridge

open Library Crypto Storage

/-! # What the validators attest

How many validators stand behind a quorum, and how far what they signed fixes
what is executed.
-/

namespace BridgeState

variable (secp : Secp256k1) (state : BridgeState) (message : CrossChainMessage)

/-- The trusted keys with a signature in the message that verifies. -/
def attestors : Finset PublicKey :=
  state.trustedValidatorPubkeys.filter fun key =>
    ∃ vs ∈ message.validatorSignatures, vs.xonlyKey = key ∧
      Schnorr.verify secp key message.computeMessageCommitment vs.signature = true

/-- The keys of the signatures that count, one for each. -/
def countedKeys : List PublicKey :=
  (message.validatorSignatures.filter
    (state.countsSignature secp message.computeMessageCommitment)).map ValidatorSignature.xonlyKey

theorem attestors_eq : state.attestors secp message = (state.countedKeys secp message).toFinset := by
  ext key
  simp only [attestors, countedKeys, countsSignature, Finset.mem_filter, List.mem_toFinset,
    List.mem_map, List.mem_filter, Bool.and_eq_true, decide_eq_true_eq]
  constructor
  · rintro ⟨trusted, vs, listed, rfl, verified⟩
    exact ⟨vs, ⟨listed, trusted, verified⟩, rfl⟩
  · rintro ⟨vs, ⟨listed, trusted, verified⟩, rfl⟩
    exact ⟨trusted, vs, listed, rfl, verified⟩

/-- The loop counts the signatures that count, on 32 bits. -/
theorem count_toNat (commit : Hash) (signatures : List ValidatorSignature) (start : UInt32) :
    (signatures.foldl
        (fun count vs => if state.countsSignature secp commit vs then count + 1 else count)
        start).toNat =
      (start.toNat + (signatures.filter (state.countsSignature secp commit)).length) % 2 ^ 32 := by
  induction signatures generalizing start with
  | nil =>
      have small := start.toNat_lt
      simp only [List.foldl_nil, List.filter_nil, List.length_nil, Nat.add_zero]
      omega
  | cons vs rest ih =>
      rw [List.foldl_cons, ih]
      cases counts : state.countsSignature secp commit vs with
      | false => rw [List.filter_cons_of_neg (by simp [counts]), if_neg nofun]
      | true =>
          rw [List.filter_cons_of_pos counts, if_pos rfl, List.length_cons, UInt32.toNat_add,
            Nat.mod_add_mod, UInt32.toNat_one]
          congr 1
          omega

theorem verifyValidatorQuorum_iff : state.verifyValidatorQuorum secp message = true ↔
    state.minValidatorSigs.toNat ≤ (state.countedKeys secp message).length % 2 ^ 32 := by
  unfold verifyValidatorQuorum countedKeys
  rw [decide_eq_true_iff, ge_iff_le, UInt32.le_iff_toNat_le, count_toNat, UInt32.toNat_zero,
    Nat.zero_add, List.length_map]

/-- A quorum has its validators: at least the required number of trusted keys
signed the message. -/
def QuorumAttested : Prop :=
  state.verifyValidatorQuorum secp message = true →
    state.minValidatorSigs.toNat ≤ (state.attestors secp message).card

/-- Where enough signatures count, those that repeat a key are no more than those
above the required number. -/
def FewRepeats : Prop :=
  state.minValidatorSigs.toNat ≤ (state.countedKeys secp message).length % 2 ^ 32 →
    repeats (state.countedKeys secp message) + state.minValidatorSigs.toNat ≤
      (state.countedKeys secp message).length

end BridgeState

namespace SampleBridge

/-- A bridge that asks for two validators. -/
def strict : BridgeState := { opened with minValidatorSigs := 2 }

/-- The mint with the signature of its one validator twice. -/
def signedTwice : CrossChainMessage :=
  { mintMessage 100 with validatorSignatures := [signed mintSignature, signed mintSignature] }

theorem signedTwice_countedKeys : strict.countedKeys library signedTwice = [key, key] := by
  have counts : strict.countsSignature library signedTwice.computeMessageCommitment
      (signed mintSignature) = true := mintSignature_counts rfl
  unfold BridgeState.countedKeys
  rw [show signedTwice.validatorSignatures = [signed mintSignature, signed mintSignature] from rfl,
    List.filter_cons_of_pos counts, List.filter_cons_of_pos counts]
  rfl

end SampleBridge

namespace BridgeState

open SampleBridge

end BridgeState

/-! ## What is executed -/

/-- Two messages that agree in everything that is signed or proven: they may differ
in the payload, the height and the timestamp they state. -/
structure CrossChainMessage.SameSigned (message other : CrossChainMessage) : Prop where
  originChainId : other.originChainId = message.originChainId
  destinationChainId : other.destinationChainId = message.destinationChainId
  messageNonce : other.messageNonce = message.messageNonce
  payloadHash : other.payloadHash = message.payloadHash
  stateRoot : other.stateRoot = message.stateRoot
  proof : other.proof = message.proof
  validatorSignatures : other.validatorSignatures = message.validatorSignatures

namespace BridgeState

variable (state : BridgeState)

/-- An amount that an unlock does not pay. -/
def Unpayable (amount : UInt64) : Prop := amount = 0 ∨ state.totalLocked < amount

/-- Two payloads that an unlock treats alike. -/
def UnlocksAlike (amount other : UInt64) : Prop :=
  amount = other ∨ state.Unpayable amount ∧ state.Unpayable other

/-- Two payloads that a mint treats alike. -/
def MintsAlike (amount other : UInt64) : Prop :=
  amount = other ∨ state.Unmintable amount ∧ state.Unmintable other

variable {state} {secp : Secp256k1} {message other : CrossChainMessage}

theorem checkMessage_congr (same : message.SameSigned other) (origin destination : ChainId)
    (minConfirmations : UInt32) (currentHeight lockHeight : UInt64) :
    state.checkMessage secp origin destination minConfirmations other currentHeight lockHeight =
      state.checkMessage secp origin destination minConfirmations message currentHeight lockHeight := by
  unfold checkMessage messageKey verifyValidatorQuorum CrossChainMessage.computeMessageCommitment
    CrossChainMessage.commitmentBytes
  rw [same.originChainId, same.destinationChainId, same.messageNonce, same.payloadHash,
    same.stateRoot, same.proof, same.validatorSignatures]

theorem Passes.congr {origin destination : ChainId} {minConfirmations : UInt32}
    {currentHeight lockHeight : UInt64}
    (passes : state.Passes secp origin destination minConfirmations message currentHeight lockHeight)
    (same : message.SameSigned other) :
    state.Passes secp origin destination minConfirmations other currentHeight lockHeight := by
  have passed := state.checkMessage_of_passes passes
  rw [← checkMessage_congr same] at passed
  obtain ⟨result, refused, -⟩ | ⟨otherPasses, -⟩ := state.checkMessage_cases
  · rw [refused] at passed
    cases passed
  · exact otherPasses

theorem unpayable_iff {amount : UInt64} :
    state.Unpayable amount ↔ ¬ (amount > 0 ∧ amount ≤ state.totalLocked) := by
  unfold Unpayable
  rw [not_and_or, UInt64.not_le, gt_iff_lt, UInt64.not_lt, UInt64.le_zero_iff]

theorem locked_eq_iff {amount other : UInt64} :
    (if amount > 0 ∧ amount ≤ state.totalLocked then state.totalLocked - amount
        else state.totalLocked) =
      (if other > 0 ∧ other ≤ state.totalLocked then state.totalLocked - other
        else state.totalLocked) ↔ state.UnlocksAlike amount other := by
  unfold UnlocksAlike
  rw [unpayable_iff, unpayable_iff]
  by_cases paid : amount > 0 ∧ amount ≤ state.totalLocked
  · have taken := toNat_sub_of_le paid.2
    have within := UInt64.le_iff_toNat_le.mp paid.2
    have positive := UInt64.lt_iff_toNat_lt.mp paid.1
    rw [if_pos paid]
    by_cases otherPaid : other > 0 ∧ other ≤ state.totalLocked
    · have otherTaken := toNat_sub_of_le otherPaid.2
      have otherWithin := UInt64.le_iff_toNat_le.mp otherPaid.2
      rw [if_pos otherPaid, ← UInt64.toNat_inj, taken, otherTaken, ← UInt64.toNat_inj]
      constructor
      · intro same
        exact .inl (by omega)
      · rintro (same | ⟨unpaid, -⟩)
        · rw [same]
        · exact absurd paid unpaid
    · rw [if_neg otherPaid, ← UInt64.toNat_inj, taken]
      rw [UInt64.toNat_zero] at positive
      refine iff_of_false (by omega) ?_
      rintro (rfl | ⟨unpaid, -⟩)
      · exact otherPaid paid
      · exact unpaid paid
  · rw [if_neg paid]
    by_cases otherPaid : other > 0 ∧ other ≤ state.totalLocked
    · have otherTaken := toNat_sub_of_le otherPaid.2
      have otherWithin := UInt64.le_iff_toNat_le.mp otherPaid.2
      have otherPositive := UInt64.lt_iff_toNat_lt.mp otherPaid.1
      rw [if_pos otherPaid, ← UInt64.toNat_inj, otherTaken]
      rw [UInt64.toNat_zero] at otherPositive
      refine iff_of_false (by omega) ?_
      rintro (rfl | ⟨-, unpaid⟩)
      · exact paid otherPaid
      · exact unpaid otherPaid
    · rw [if_neg otherPaid]
      exact iff_of_true rfl (.inr ⟨paid, otherPaid⟩)

theorem processBurnUnlock_eq_iff (lane : Lane) (same : message.SameSigned other)
    (currentHeight lockHeight : UInt64) :
    state.processBurnUnlock secp lane message currentHeight lockHeight =
        state.processBurnUnlock secp lane other currentHeight lockHeight ↔
      (state.Passes secp lane.away lane.home lane.minConfirmations message currentHeight lockHeight →
        state.UnlocksAlike message.amount other.amount) := by
  unfold processBurnUnlock
  rw [checkMessage_congr same]
  obtain ⟨result, refused, -⟩ | ⟨passes, passed⟩ := state.checkMessage_cases
  · rw [refused]
    refine iff_of_true rfl fun passes => ?_
    rw [state.checkMessage_of_passes passes] at refused
    cases refused
  · rw [passed, ← locked_eq_iff]
    simp only [passes, true_implies, Prod.mk.injEq, BridgeState.mk.injEq, true_and, and_true]

theorem processLockMint_eq_iff (lane : Lane) (same : message.SameSigned other)
    (currentHeight lockHeight : UInt64) :
    state.processLockMint secp lane message currentHeight lockHeight =
        state.processLockMint secp lane other currentHeight lockHeight ↔
      (state.Passes secp lane.home lane.away lane.minConfirmations message currentHeight lockHeight →
        state.MintsAlike message.amount other.amount) := by
  obtain ⟨result, refused, -⟩ | ⟨passes, passed⟩ := state.checkMessage_cases
  · unfold processLockMint
    rw [checkMessage_congr same, refused]
    refine iff_of_true rfl fun passes => ?_
    rw [state.checkMessage_of_passes passes] at refused
    cases refused
  have otherPasses : state.Passes secp lane.home lane.away lane.minConfirmations other currentHeight
      lockHeight := passes.congr same
  simp only [passes, true_implies]
  by_cases unmintable : state.Unmintable message.amount
  · rw [state.processLockMint_unmintable passes unmintable]
    by_cases otherUnmintable : state.Unmintable other.amount
    · rw [state.processLockMint_unmintable otherPasses otherUnmintable]
      exact iff_of_true rfl (.inr ⟨unmintable, otherUnmintable⟩)
    · rw [state.processLockMint_mintable otherPasses otherUnmintable]
      refine iff_of_false nofun ?_
      rintro (alike | ⟨-, refused⟩)
      · exact otherUnmintable (alike ▸ unmintable)
      · exact otherUnmintable refused
  · rw [state.processLockMint_mintable passes unmintable]
    by_cases otherUnmintable : state.Unmintable other.amount
    · rw [state.processLockMint_unmintable otherPasses otherUnmintable]
      refine iff_of_false nofun ?_
      rintro (alike | ⟨refused, -⟩)
      · exact unmintable (alike ▸ otherUnmintable)
      · exact unmintable refused
    · rw [state.processLockMint_mintable otherPasses otherUnmintable]
      have sameKey : messageKey other = messageKey message := by
        unfold messageKey
        rw [same.originChainId, same.messageNonce]
      simp only [booked, BridgeCall.key, sameKey, lockedAfter, mintedAfter, Prod.mk.injEq,
        BridgeState.mk.injEq, true_and, and_true]
      constructor
      · intro sum
        exact .inl ((UInt64.add_right_inj _).mp sum)
      · rintro (alike | ⟨refused, -⟩)
        · rw [alike]
        · exact absurd refused unmintable

end BridgeState

namespace Crossing

/-- Two messages that agree in what is signed are executed alike if and only if they
fail a check, or their payloads hold one amount or two that the call treats alike. -/
theorem process_alike_iff (secp : Secp256k1) (crossing : Crossing) (state : BridgeState)
    {message other : CrossChainMessage} (same : message.SameSigned other)
    (currentHeight lockHeight : UInt64) :
    (crossing.apply secp state (.unlock message currentHeight lockHeight) =
        crossing.apply secp state (.unlock other currentHeight lockHeight) ↔
      (state.Passes secp crossing.lane.away crossing.lane.home crossing.lane.minConfirmations message
          currentHeight lockHeight →
        state.UnlocksAlike message.amount other.amount)) ∧
    (crossing.apply secp state (.mint message currentHeight lockHeight) =
        crossing.apply secp state (.mint other currentHeight lockHeight) ↔
      (state.Passes secp crossing.lane.home crossing.lane.away crossing.lane.minConfirmations message
          currentHeight lockHeight →
        state.MintsAlike message.amount other.amount)) := by
  simp only [apply_eq_lane]
  exact ⟨BridgeState.processBurnUnlock_eq_iff crossing.lane same currentHeight lockHeight,
    BridgeState.processLockMint_eq_iff crossing.lane same currentHeight lockHeight⟩

end Crossing

namespace SampleBridge

/-- The mint of an amount, relayed with another timestamp and a memo in its payload. -/
def relayed (amount : UInt64) : CrossChainMessage :=
  { mintMessage amount with timestamp := 0, payload := (mintMessage amount).payload ++ [1, 2, 3] }

theorem relayed_sameSigned (amount : UInt64) : (mintMessage amount).SameSigned (relayed amount) :=
  ⟨rfl, rfl, rfl, rfl, rfl, rfl, rfl⟩

/-- The validators signed one mint, and a relayer chose its amount. -/
theorem mintMessage_sameSigned (amount other : UInt64) :
    (mintMessage amount).SameSigned (mintMessage other) :=
  ⟨rfl, rfl, rfl, rfl, rfl, rfl, rfl⟩

end SampleBridge

namespace Crossing

open SampleBridge

theorem process_alike_relayed :
    talantonDrachma.apply library opened (.mint (mintMessage 60) 10 1) =
      talantonDrachma.apply library opened (.mint (relayed 60) 10 1) :=
  (process_alike_iff library .talantonDrachma opened (relayed_sameSigned 60) 10 1).2.mpr fun _ =>
    .inl (by decide +kernel)

/-- Sixty or a hundred units are minted by one signed message. -/
theorem process_not_alike :
    ¬ ∀ (secp : Secp256k1) (crossing : Crossing) (state : BridgeState)
      (message other : CrossChainMessage), message.SameSigned other →
        ∀ currentHeight lockHeight : UInt64,
          crossing.apply secp state (.mint message currentHeight lockHeight) =
            crossing.apply secp state (.mint other currentHeight lockHeight) := by
  intro always
  have alike := next_congr (always library .talantonDrachma
    { opened with processedNonceKeys := {makeNonceKey sender 1}, totalLocked := 100 }
    _ _ (mintMessage_sameSigned 60 100) 10 1)
  have sixty := next_minted (show (60 : UInt64) ≤ 100 by decide)
  have hundred := next_minted (UInt64.le_refl 100)
  have one := congrArg BridgeState.totalMinted (sixty.symm.trans (alike.trans hundred))
  exact absurd one (by decide)

end Crossing

end Parthenon.Bridge
