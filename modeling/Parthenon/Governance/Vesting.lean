import Parthenon.Library.ByteCodec
import Parthenon.Library.OrderedMap
import Parthenon.Library.Sums

namespace Parthenon.Governance

open Library Std

/-! # Vesting

Schedules that release an amount linearly after a cliff.  All block arithmetic
is on 64 bits and wraps.
-/

structure VestingSchedule where
  scheduleId : UInt64
  beneficiary : Bytes
  totalAmount : UInt64
  startBlock : UInt64
  cliffBlocks : UInt64
  durationBlocks : UInt64
  claimedAmount : UInt64
  revoked : Bool
  revokedAtBlock : UInt64
  grantId : UInt64
deriving DecidableEq, Repr

abbrev Schedules := ExtTreeMap UInt64 VestingSchedule compare

structure VestingRegistry where
  schedules : Schedules
  nextId : UInt64

namespace VestingSchedule

def computeVested (s : VestingSchedule) (currentBlock : UInt64) : UInt64 :=
  if s.totalAmount = 0 ∨ s.durationBlocks = 0 then 0
  else
    let cliffEnd := s.startBlock + s.cliffBlocks
    if currentBlock < cliffEnd then 0
    else
      let vestEnd := cliffEnd + s.durationBlocks
      if currentBlock ≥ vestEnd then s.totalAmount
      else
        let elapsed := currentBlock - cliffEnd
        s.totalAmount / s.durationBlocks * elapsed +
          s.totalAmount % s.durationBlocks * elapsed / s.durationBlocks

/-- What the schedule still owes at a block. -/
def claimable (s : VestingSchedule) (currentBlock : UInt64) : UInt64 :=
  if s.revoked then 0
  else
    let vested := s.computeVested currentBlock
    if vested > s.claimedAmount then vested - s.claimedAmount else 0

def reclaimable (s : VestingSchedule) (currentBlock : UInt64) : UInt64 :=
  if s.revoked then 0
  else
    let vested := s.computeVested currentBlock
    if s.totalAmount > vested then s.totalAmount - vested else 0

end VestingSchedule

namespace VestingRegistry

def new : VestingRegistry := ⟨∅, 1⟩

/-- The schedule that `CreateSchedule` stores. -/
def newSchedule (registry : VestingRegistry) (beneficiary : Bytes)
    (totalAmount startBlock cliffBlocks durationBlocks grantId : UInt64) : VestingSchedule where
  scheduleId := registry.nextId
  beneficiary := beneficiary
  totalAmount := totalAmount
  startBlock := startBlock
  cliffBlocks := cliffBlocks
  durationBlocks := durationBlocks
  claimedAmount := 0
  revoked := false
  revokedAtBlock := 0
  grantId := grantId

def createSchedule (registry : VestingRegistry) (beneficiary : Bytes)
    (totalAmount startBlock cliffBlocks durationBlocks grantId : UInt64) : UInt64 × VestingRegistry :=
  if beneficiary.isEmpty ∨ totalAmount = 0 ∨ durationBlocks = 0 then (0, registry)
  else
    let s := registry.newSchedule beneficiary totalAmount startBlock cliffBlocks durationBlocks grantId
    (s.scheduleId, ⟨registry.schedules.insert s.scheduleId s, registry.nextId + 1⟩)

/-- What has vested.  A revoked schedule stays at its revocation block. -/
def getTotalVested (registry : VestingRegistry) (scheduleId currentBlock : UInt64) : UInt64 :=
  match registry.schedules[scheduleId]? with
  | none => 0
  | some s => if s.revoked then s.computeVested s.revokedAtBlock else s.computeVested currentBlock

def getClaimable (registry : VestingRegistry) (scheduleId currentBlock : UInt64) : UInt64 :=
  match registry.schedules[scheduleId]? with
  | none => 0
  | some s => s.claimable currentBlock

def getReclaimable (registry : VestingRegistry) (scheduleId currentBlock : UInt64) : UInt64 :=
  match registry.schedules[scheduleId]? with
  | none => 0
  | some s => s.reclaimable currentBlock

def claim (registry : VestingRegistry) (scheduleId currentBlock : UInt64) :
    UInt64 × VestingRegistry :=
  match registry.schedules[scheduleId]? with
  | none => (0, registry)
  | some s =>
      if s.revoked then (0, registry)
      else
        let claimable := registry.getClaimable scheduleId currentBlock
        if claimable = 0 then (0, registry)
        else
          (claimable,
            { registry with
              schedules := registry.schedules.insert scheduleId
                { s with claimedAmount := s.claimedAmount + claimable } })

def revoke (registry : VestingRegistry) (scheduleId proposalId currentBlock : UInt64) :
    UInt64 × VestingRegistry :=
  if proposalId = 0 then (0, registry)
  else match registry.schedules[scheduleId]? with
  | none => (0, registry)
  | some s =>
      if s.revoked then (0, registry)
      else
        (registry.getReclaimable scheduleId currentBlock,
          { registry with
            schedules := registry.schedules.insert scheduleId
              { s with revoked := true, revokedAtBlock := currentBlock } })

end VestingRegistry

/-! ## What vests and what is claimed

However the block arithmetic wraps, no more than the total vests.  A claim takes
what vested since the last one.
-/

namespace VestingSchedule

variable (s : VestingSchedule)

theorem linear_le_total (total : Nat) {duration elapsed : Nat} (within : elapsed < duration) :
    total / duration * elapsed % 2 ^ 64 + total % duration * elapsed % 2 ^ 64 / duration ≤ total := by
  have positive : 0 < duration := by omega
  have first : total / duration * elapsed ≤ total / duration * duration :=
    Nat.mul_le_mul_left _ (Nat.le_of_lt within)
  have second : total % duration * elapsed % 2 ^ 64 / duration ≤ total % duration := by
    apply Nat.div_le_of_le_mul
    calc total % duration * elapsed % 2 ^ 64 ≤ total % duration * elapsed := Nat.mod_le _ _
      _ ≤ total % duration * duration := Nat.mul_le_mul_left _ (Nat.le_of_lt within)
      _ = duration * (total % duration) := Nat.mul_comm _ _
  have whole : total / duration * duration + total % duration = total := Nat.div_add_mod' _ _
  have reduced : total / duration * elapsed % 2 ^ 64 ≤ total / duration * elapsed := Nat.mod_le _ _
  omega

theorem computeVested_le (currentBlock : UInt64) : s.computeVested currentBlock ≤ s.totalAmount := by
  unfold computeVested
  split
  · exact UInt64.zero_le
  dsimp only
  split
  · exact UInt64.zero_le
  split
  · exact UInt64.le_refl _
  rename_i positive started unfinished
  have within : (currentBlock - (s.startBlock + s.cliffBlocks)).toNat < s.durationBlocks.toNat := by
    have cliff : (s.startBlock + s.cliffBlocks).toNat ≤ currentBlock.toNat := UInt64.not_lt.mp started
    have early : currentBlock.toNat < (s.startBlock + s.cliffBlocks + s.durationBlocks).toNat :=
      UInt64.not_le.mp unfinished
    rw [UInt64.toNat_add _ s.durationBlocks] at early
    rw [toNat_sub_of_le (UInt64.not_lt.mp started)]
    omega
  have bound := linear_le_total s.totalAmount.toNat within
  rw [UInt64.le_iff_toNat_le, UInt64.toNat_add, UInt64.toNat_mul, UInt64.toNat_div, UInt64.toNat_div,
    UInt64.toNat_mul, UInt64.toNat_mod]
  exact (Nat.mod_le _ _).trans bound

theorem claimable_eq_sub {currentBlock : UInt64} (pays : s.claimable currentBlock ≠ 0) :
    s.revoked = false ∧ s.claimedAmount < s.computeVested currentBlock ∧
      s.claimable currentBlock = s.computeVested currentBlock - s.claimedAmount := by
  unfold claimable at pays ⊢
  cases live : s.revoked with
  | true => simp [live] at pays
  | false =>
      simp only [live, Bool.false_eq_true, if_false] at pays ⊢
      split at pays
      · rename_i more
        exact ⟨trivial, more, if_pos more⟩
      · exact absurd rfl pays

end VestingSchedule

namespace VestingRegistry

variable (registry : VestingRegistry)

/-- What is known of a schedule that was made. -/
theorem createSchedule_accepted {beneficiary : Bytes}
    {totalAmount startBlock cliffBlocks durationBlocks grantId : UInt64}
    (accepted : (registry.createSchedule beneficiary totalAmount startBlock cliffBlocks
      durationBlocks grantId).1 ≠ 0) :
    beneficiary.isEmpty = false ∧ totalAmount ≠ 0 ∧ durationBlocks ≠ 0 := by
  have passed : ¬ (beneficiary.isEmpty ∨ totalAmount = 0 ∨ durationBlocks = 0) := by
    intro refused
    unfold createSchedule at accepted
    exact accepted (by rw [if_pos refused])
  simpa [not_or] using passed

theorem createSchedule_of_made {beneficiary : Bytes} {totalAmount durationBlocks : UInt64}
    (named : beneficiary.isEmpty = false) (some_ : totalAmount ≠ 0) (timed : durationBlocks ≠ 0)
    (startBlock cliffBlocks grantId : UInt64) :
    registry.createSchedule beneficiary totalAmount startBlock cliffBlocks durationBlocks grantId =
      (registry.nextId,
        ⟨registry.schedules.insert registry.nextId
          (registry.newSchedule beneficiary totalAmount startBlock cliffBlocks durationBlocks grantId),
          registry.nextId + 1⟩) := by
  unfold createSchedule
  rw [if_neg (by simp [named, some_, timed])]
  rfl

/-- A claim pays nothing, or what vested since the last claim. -/
theorem claim_cases (scheduleId currentBlock : UInt64) :
    registry.claim scheduleId currentBlock = (0, registry) ∨
    ∃ s, registry.schedules[scheduleId]? = some s ∧ s.revoked = false ∧
      s.claimedAmount < s.computeVested currentBlock ∧
      registry.claim scheduleId currentBlock =
        (s.computeVested currentBlock - s.claimedAmount,
          { registry with
            schedules := registry.schedules.insert scheduleId
              { s with
                claimedAmount :=
                  s.claimedAmount + (s.computeVested currentBlock - s.claimedAmount) } }) := by
  unfold claim getClaimable
  cases found : registry.schedules[scheduleId]? with
  | none => exact .inl rfl
  | some s =>
      cases live : s.revoked with
      | true => exact .inl (by simp [live])
      | false =>
          by_cases pays : s.claimable currentBlock = 0
          · exact .inl (by simp [live, pays])
          · obtain ⟨-, more, paid⟩ := s.claimable_eq_sub pays
            refine .inr ⟨s, rfl, live, more, ?_⟩
            rw [← paid]
            simp only [live, pays, Bool.false_eq_true, if_false]

theorem revoke_cases (scheduleId proposalId currentBlock : UInt64) :
    registry.revoke scheduleId proposalId currentBlock = (0, registry) ∨
    ∃ s, registry.schedules[scheduleId]? = some s ∧ s.revoked = false ∧
      registry.revoke scheduleId proposalId currentBlock =
        (s.reclaimable currentBlock,
          { registry with
            schedules := registry.schedules.insert scheduleId
              { s with revoked := true, revokedAtBlock := currentBlock } }) := by
  unfold revoke getReclaimable
  split
  · exact .inl rfl
  cases found : registry.schedules[scheduleId]? with
  | none => exact .inl rfl
  | some s =>
      cases live : s.revoked with
      | true => exact .inl (by simp [live])
      | false => exact .inr ⟨s, rfl, live, by simp [live]⟩

end VestingRegistry

end Parthenon.Governance
