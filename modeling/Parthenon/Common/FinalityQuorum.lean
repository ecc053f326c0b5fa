import Mathlib.Algebra.BigOperators.Group.Finset.Basic
import Mathlib.Data.List.Induction
import Parthenon.Common.Commitment
import Parthenon.Library.Sums

namespace Parthenon.Common

open Library Storage

/-! # Finality quorum

The stake behind a commitment is compared with a share of the active stake by cross
multiplication.  The sum of stakes wraps and the products are capped.
-/

/-- Take the stake of a signature unless its validator was seen. -/
def weigh (counted : UInt64 × Finset Bytes) (sig : FinalitySignature) : UInt64 × Finset Bytes :=
  if sig.validatorId ∈ counted.2 then counted
  else (counted.1 + sig.stake, insert sig.validatorId counted.2)

def signedStakeWeight (commitment : Commitment) : UInt64 :=
  (commitment.signatures.foldl weigh (0, ∅)).1

/-- A product that is capped at the largest value. -/
def guardedProduct (value factor : UInt64) : UInt64 :=
  if factor = 0 ∨ value ≤ 0xFFFFFFFFFFFFFFFF / factor then value * factor
  else 0xFFFFFFFFFFFFFFFF

def validateFinalityQuorum (commitment : Commitment)
    (activeStake minimumNumerator minimumDenominator : UInt64) : CommitmentValidationResult := do
  ensure (!(minimumDenominator == 0 || minimumNumerator > minimumDenominator))
    "invalid quorum threshold"
  ensure (activeStake != 0) "active stake cannot be zero"
  let lhs := guardedProduct (signedStakeWeight commitment) minimumDenominator
  let rhs := guardedProduct activeStake minimumNumerator
  ensure (!(lhs < rhs)) "finality quorum not reached"

/-- Two thirds of the active stake have to sign. -/
def validateL3Commit (commitment : Commitment) (lastL3Height activeStake : UInt64) :
    CommitmentValidationResult := do
  ensure (commitment.sourceChain == .obolos) "TX_L3_COMMIT must originate from OBOLOS"
  ensure (!(commitment.finalizedHeight ≤ lastL3Height))
    "TX_L3_COMMIT finalized_height must be monotonic"
  validatePayloadEncoding commitment
  validateFinalityQuorum commitment activeStake 2 3

/-! ## Exact stakes -/

/-- The stake of the first signature under a validator's name. -/
def firstStake (signatures : List FinalitySignature) (validatorId : Bytes) : Nat :=
  ((signatures.find? fun sig => sig.validatorId = validatorId).map fun sig => sig.stake.toNat).getD 0

def signers (signatures : List FinalitySignature) : Finset Bytes :=
  (signatures.map FinalitySignature.validatorId).toFinset

/-- The stakes of the distinct validators that signed. -/
def signedStake (commitment : Commitment) : Nat :=
  ∑ validatorId ∈ signers commitment.signatures, firstStake commitment.signatures validatorId

theorem signers_concat (signatures : List FinalitySignature) (sig : FinalitySignature) :
    signers (signatures ++ [sig]) = insert sig.validatorId (signers signatures) := by
  ext validatorId
  simp [signers]

theorem firstStake_concat (signatures : List FinalitySignature) (sig : FinalitySignature)
    (validatorId : Bytes) :
    firstStake (signatures ++ [sig]) validatorId =
      if validatorId ∈ signers signatures then firstStake signatures validatorId
      else if sig.validatorId = validatorId then sig.stake.toNat
      else 0 := by
  unfold firstStake
  rw [List.find?_append]
  cases found : signatures.find? fun sig => sig.validatorId = validatorId with
  | some first =>
      have signs : validatorId ∈ signers signatures := by
        refine List.mem_toFinset.mpr (List.mem_map.mpr ⟨first, List.mem_of_find?_eq_some found, ?_⟩)
        simpa using List.find?_some found
      rw [if_pos signs]
      rfl
  | none =>
      have absent : validatorId ∉ signers signatures := by
        intro member
        obtain ⟨other, inSignatures, isId⟩ := List.mem_map.mp (List.mem_toFinset.mp member)
        exact absurd isId (by simpa using List.find?_eq_none.mp found other inSignatures)
      rw [if_neg absent]
      by_cases same : sig.validatorId = validatorId
      · simp [same]
      · simp [same]

/-- A further signature adds its stake unless its validator signed before. -/
theorem sum_firstStake_concat (signatures : List FinalitySignature) (sig : FinalitySignature) :
    ∑ validatorId ∈ signers (signatures ++ [sig]), firstStake (signatures ++ [sig]) validatorId =
      ∑ validatorId ∈ signers signatures, firstStake signatures validatorId +
        if sig.validatorId ∈ signers signatures then 0 else sig.stake.toNat := by
  have kept : ∑ validatorId ∈ signers signatures, firstStake (signatures ++ [sig]) validatorId =
      ∑ validatorId ∈ signers signatures, firstStake signatures validatorId := by
    refine Finset.sum_congr rfl fun validatorId member => ?_
    rw [firstStake_concat, if_pos member]
  rw [signers_concat]
  by_cases seen : sig.validatorId ∈ signers signatures
  · rw [Finset.insert_eq_of_mem seen, if_pos seen, kept, Nat.add_zero]
  · rw [Finset.sum_insert seen, if_neg seen, kept, firstStake_concat, if_neg seen, if_pos rfl,
      Nat.add_comm]

/-- The loop knows who signed and their stakes modulo `2 ^ 64`. -/
theorem foldl_weigh (signatures : List FinalitySignature) :
    (signatures.foldl weigh (0, ∅)).2 = signers signatures ∧
      (signatures.foldl weigh (0, ∅)).1.toNat =
        (∑ validatorId ∈ signers signatures, firstStake signatures validatorId) % 2 ^ 64 := by
  induction signatures using List.reverseRecOn with
  | nil => exact ⟨rfl, rfl⟩
  | append_singleton signatures sig ih =>
      obtain ⟨seen, total⟩ := ih
      rw [List.foldl_append, List.foldl_cons, List.foldl_nil, sum_firstStake_concat, signers_concat]
      generalize signatures.foldl weigh (0, ∅) = counted at seen total ⊢
      unfold weigh
      rw [seen]
      by_cases again : sig.validatorId ∈ signers signatures
      · rw [if_pos again, if_pos again, Finset.insert_eq_of_mem again, Nat.add_zero]
        exact ⟨seen, total⟩
      · rw [if_neg again, if_neg again]
        refine ⟨rfl, ?_⟩
        dsimp only
        rw [UInt64.toNat_add, total, Nat.mod_add_mod]

theorem signedStakeWeight_toNat (commitment : Commitment) :
    (signedStakeWeight commitment).toNat = signedStake commitment % 2 ^ 64 :=
  (foldl_weigh commitment.signatures).2

/-! ## The comparison -/

theorem guardedProduct_toNat (value factor : UInt64) :
    (guardedProduct value factor).toNat = min (value.toNat * factor.toNat) (2 ^ 64 - 1) := by
  have guard : ¬ (factor = 0 ∨ value ≤ 0xFFFFFFFFFFFFFFFF / factor) ↔
      2 ^ 64 ≤ value.toNat * factor.toNat := by
    rw [not_or, UInt64.not_le, ← ne_eq, ← UInt64.pos_iff_ne_zero, Nat.mul_comm]
    exact mul_exceeds_iff
  rw [guardedProduct, ← ite_not]
  exact cappedMul_toNat guard

section Threshold

variable {commitment : Commitment} {activeStake numerator denominator : UInt64}
  (active : 0 < activeStake) (proper : numerator ≤ denominator) (some_ : 0 < denominator)

include active proper some_

/-- What the check accepts: the wrapped sum is enough, or its product reaches the cap. -/
theorem validateFinalityQuorum_ok :
    validateFinalityQuorum commitment activeStake numerator denominator = .ok () ↔
      activeStake.toNat * numerator.toNat ≤
          signedStake commitment % 2 ^ 64 * denominator.toNat ∨
        2 ^ 64 - 1 ≤ signedStake commitment % 2 ^ 64 * denominator.toNat := by
  have threshold : (!(denominator == 0 || numerator > denominator)) = true := by
    simp [UInt64.not_lt.mpr proper, (UInt64.ne_of_lt some_).symm]
  have stake : (activeStake != 0) = true := by simp [(UInt64.ne_of_lt active).symm]
  simp only [validateFinalityQuorum, then_ok, ensure_ok, threshold, stake, true_and]
  rw [Bool.not_eq_true', decide_eq_false_iff_not, UInt64.lt_iff_toNat_lt, guardedProduct_toNat,
    guardedProduct_toNat, signedStakeWeight_toNat]
  omega

/-- The check is exact where neither the sum of the stakes nor its product is too
large, and beyond that where it happens to agree. -/
def Comparable (commitment : Commitment) (activeStake numerator denominator : UInt64) : Prop :=
  (signedStake commitment < 2 ^ 64 ∧
      (signedStake commitment * denominator.toNat < 2 ^ 64 - 1 ∨
        activeStake.toNat * numerator.toNat ≤ signedStake commitment * denominator.toNat)) ∨
    (2 ^ 64 ≤ signedStake commitment ∧
      min (activeStake.toNat * numerator.toNat) (2 ^ 64 - 1) ≤
        signedStake commitment % 2 ^ 64 * denominator.toNat)

instance : Decidable (Comparable commitment activeStake numerator denominator) :=
  inferInstanceAs (Decidable ((_ ∧ (_ ∨ _)) ∨ (_ ∧ _)))

/-- The check is the exact comparison precisely where the two are comparable. -/
theorem finalityQuorum_exact_iff :
    (validateFinalityQuorum commitment activeStake numerator denominator = .ok () ↔
        activeStake.toNat * numerator.toNat ≤ signedStake commitment * denominator.toNat) ↔
      Comparable commitment activeStake numerator denominator := by
  rw [validateFinalityQuorum_ok active proper some_]
  unfold Comparable
  by_cases small : signedStake commitment < 2 ^ 64
  · rw [Nat.mod_eq_of_lt small]
    omega
  · have exact_ : activeStake.toNat * numerator.toNat ≤
        signedStake commitment * denominator.toNat := by
      have activeSmall := activeStake.toNat_lt
      exact Nat.mul_le_mul (by omega) (UInt64.le_iff_toNat_le.mp proper)
    rw [iff_true_right exact_]
    omega

end Threshold

/-- An accepted commitment of the third layer is newer than the last one, and two
thirds of the active stake signed it unless three times the signed stake is too large. -/
theorem validateL3Commit_two_thirds {commitment : Commitment} {lastL3Height activeStake : UInt64}
    (accepted : validateL3Commit commitment lastL3Height activeStake = .ok ())
    (small : signedStake commitment * 3 < 2 ^ 64 - 1) :
    lastL3Height < commitment.finalizedHeight ∧ activeStake.toNat * 2 ≤ signedStake commitment * 3 := by
  simp only [validateL3Commit, then_ok, ensure_ok] at accepted
  obtain ⟨_, newer, _, quorum⟩ := accepted
  have active : 0 < activeStake := by
    simp only [validateFinalityQuorum, then_ok, ensure_ok] at quorum
    exact UInt64.pos_iff_ne_zero.mpr (by simpa using quorum.2.1)
  refine ⟨by simpa using newer, ?_⟩
  rcases (validateFinalityQuorum_ok active (by decide) (by decide)).mp quorum with enough | capped
  · rw [Nat.mod_eq_of_lt (by omega)] at enough
    exact enough
  · rw [Nat.mod_eq_of_lt (by omega)] at capped
    exact absurd capped (Nat.not_le.mpr small)

def signedWith (stakes : List UInt64) : Commitment where
  sourceChain := .obolos
  epoch := 0
  finalizedHeight := 1
  finalizedBlockHash := List.replicate 64 97
  stateRoot := List.replicate 64 97
  validatorSetHash := List.replicate 64 97
  upstreamCommitmentHash := []
  signatures := stakes.mapIdx fun index stake =>
    { validatorId := decimal index, stake, signature := text ['s'] }

/-- Two thirds of three. -/
theorem finalityQuorum_exact_iff_two_thirds :
    (validateFinalityQuorum (signedWith [1, 1]) 3 2 3 = .ok () ↔ 3 * 2 ≤ signedStake (signedWith [1, 1]) * 3) :=
  (finalityQuorum_exact_iff (by decide) (by decide) (by decide)).mpr (by decide +kernel)

/-- A third of the largest stake passes for two thirds of it. -/
theorem third_accepted :
    ¬ (validateFinalityQuorum (signedWith [6148914691236517205]) 18446744073709551615 2 3 = .ok () ↔
      18446744073709551615 * 2 ≤ signedStake (signedWith [6148914691236517205]) * 3) := by
  decide +kernel

end Parthenon.Common
