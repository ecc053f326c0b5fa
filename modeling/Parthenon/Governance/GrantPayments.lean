import Parthenon.Governance.TreasuryLaws
import Parthenon.Governance.Vesting

namespace Parthenon.Governance

open Library Std
open Treasury (milestoneTotal exactTotal)

/-! # What a vested grant pays

A grant with a vesting schedule can be paid twice over, by its milestones and by
its schedule: the two keep separate accounts.
-/

/-- A call that pays from a grant or its schedule, or ends one of them. -/
inductive PaymentCall
  | releaseMilestone (grantId : UInt64) (milestoneIndex : UInt32) (proposalId blockHeight : UInt64)
  | revokeGrant (grantId proposalId blockHeight : UInt64)
  | claim (scheduleId currentBlock : UInt64)
  | revokeSchedule (scheduleId proposalId currentBlock : UInt64)

namespace Treasury

/-- A call made on the vesting registry that is attached. -/
def onRegistry (treasury : Treasury) (call : VestingRegistry → UInt64 × VestingRegistry) :
    UInt64 × Treasury :=
  match treasury.vestingRegistry with
  | none => (0, treasury)
  | some registry =>
      ((call registry).1, { treasury with vestingRegistry := some (call registry).2 })

def schedule? (treasury : Treasury) (scheduleId : UInt64) : Option VestingSchedule :=
  treasury.vestingRegistry.bind (·.schedules[scheduleId]?)

/-- The exact amount of a milestone of a grant. -/
def milestoneAmount (treasury : Treasury) (grantId : UInt64) (milestoneIndex : UInt32) : Nat :=
  ((treasury.grants[grantId]?.bind (·.milestones[milestoneIndex.toNat]?)).map (·.amount.toNat)).getD 0

end Treasury

/-- A treasury and what one grant and its schedule paid and gave back so far. -/
structure Payments where
  treasury : Treasury
  released : Nat
  claimed : Nat
  refunded : Nat

namespace Payments

variable (grantId scheduleId : UInt64) (total : Nat) (payments : Payments)

/-- The accounts of one grant and one schedule after a call. -/
def after : PaymentCall → Payments
  | .releaseMilestone id milestoneIndex proposalId blockHeight =>
      let (done, treasury) :=
        payments.treasury.releaseMilestone id milestoneIndex proposalId blockHeight
      { payments with
        treasury
        released := payments.released +
          if done ∧ id = grantId then payments.treasury.milestoneAmount id milestoneIndex else 0 }
  | .revokeGrant id proposalId blockHeight =>
      let (done, treasury) := payments.treasury.revokeGrant id proposalId blockHeight
      { payments with
        treasury
        refunded := payments.refunded +
          if done ∧ id = grantId then
            (payments.treasury.grants[id]?.map (·.refund.toNat)).getD 0
          else 0 }
  | .claim id currentBlock =>
      let (amount, treasury) := payments.treasury.onRegistry (·.claim id currentBlock)
      { payments with
        treasury
        claimed := payments.claimed + if id = scheduleId then amount.toNat else 0 }
  | .revokeSchedule id proposalId currentBlock =>
      { payments with
        treasury := (payments.treasury.onRegistry (·.revoke id proposalId currentBlock)).2 }

/-- The calls that keep the two accounts within the total: a milestone and a claim that
still fit beside what the other account paid, and a revocation of the grant after its
schedule was revoked without any claim. -/
def Orderly : PaymentCall → Prop
  | .releaseMilestone id milestoneIndex proposalId blockHeight =>
      id = grantId →
      (payments.treasury.releaseMilestone id milestoneIndex proposalId blockHeight).1 = true →
        payments.released + payments.treasury.milestoneAmount id milestoneIndex + payments.claimed ≤
          total
  | .revokeGrant id proposalId blockHeight =>
      id = grantId → (payments.treasury.revokeGrant id proposalId blockHeight).1 = true →
        payments.claimed = 0 ∧
          ∃ s, payments.treasury.schedule? scheduleId = some s ∧ s.revoked = true
  | .claim id currentBlock =>
      id = scheduleId → ∀ s, payments.treasury.schedule? id = some s →
        s.claimable currentBlock ≠ 0 →
          payments.released + (s.computeVested currentBlock).toNat ≤ total
  | .revokeSchedule _ _ _ => True

def OrderlyStep (call : PaymentCall) (next : Payments) : Prop :=
  payments.Orderly grantId scheduleId total call ∧ next = payments.after grantId scheduleId call

/-- What was paid and given back is within the total, and nothing can be claimed once
the grant is revoked. -/
def WithinTotal : Prop :=
  payments.released + payments.claimed + payments.refunded ≤ total ∧
    ∀ grant, payments.treasury.grants[grantId]? = some grant → grant.revoked = true →
      ∀ currentBlock, (payments.treasury.onRegistry (·.claim scheduleId currentBlock)).1 = 0

/-- A grant that is still live gave nothing back.  One that was revoked gave back all it
had not released, and its schedule has ended without a claim. -/
def Settled (grant : Grant) : Prop :=
  if grant.revoked then
    payments.released + payments.refunded = total ∧ payments.claimed = 0 ∧
      ∃ s, payments.treasury.schedule? scheduleId = some s ∧ s.revoked = true
  else payments.refunded = 0

/-- The accounts as the grant and the schedule have them.  The exact sum of all
milestones may be larger than the total, which is reduced to 64 bits. -/
structure Accounted (exactSum : Nat) : Prop where
  wrapped : exactSum % 2 ^ 64 = total
  grant : ∃ grant, payments.treasury.grants[grantId]? = some grant ∧
    payments.released + grant.pending = exactSum ∧ payments.Settled scheduleId total grant
  schedule : ∃ s, payments.treasury.schedule? scheduleId = some s ∧
    s.claimedAmount.toNat = payments.claimed
  within : payments.released + payments.claimed ≤ total

variable {grantId scheduleId total payments}

theorem Accounted.withinTotal {exactSum : Nat}
    (accounted : payments.Accounted grantId scheduleId total exactSum) :
    payments.WithinTotal grantId scheduleId total := by
  obtain ⟨grant, found, -, settled⟩ := accounted.grant
  have within := accounted.within
  unfold Settled at settled
  refine ⟨?_, ?_⟩
  · cases live : grant.revoked with
    | true =>
        obtain ⟨whole, none_, -⟩ := (if_pos live).mp settled
        omega
    | false =>
        have none_ := settled
        rw [if_neg (by simp [live])] at none_
        omega
  · intro other found' revoked currentBlock
    rw [found] at found'
    cases found'
    rw [if_pos revoked] at settled
    obtain ⟨-, -, s, scheduled, ended⟩ := settled
    unfold Treasury.schedule? at scheduled
    unfold Treasury.onRegistry
    cases attached : payments.treasury.vestingRegistry with
    | none => rfl
    | some registry =>
        rw [attached, Option.bind_some] at scheduled
        simp only [VestingRegistry.claim, scheduled, ended, if_true]

/-! ## What a call keeps -/

variable {exactSum : Nat}

/-- A change that touches neither the grant nor the schedule. -/
theorem Accounted.of_same {after : Payments}
    (accounted : payments.Accounted grantId scheduleId total exactSum)
    (grants : after.treasury.grants[grantId]? = payments.treasury.grants[grantId]?)
    (schedules : after.treasury.schedule? scheduleId = payments.treasury.schedule? scheduleId)
    (released : after.released = payments.released) (claimed : after.claimed = payments.claimed)
    (refunded : after.refunded = payments.refunded) :
    after.Accounted grantId scheduleId total exactSum := by
  obtain ⟨wrapped, ⟨grant, found, summed, settled⟩, scheduled, within⟩ := accounted
  refine ⟨wrapped, ⟨grant, ?_, ?_, ?_⟩, ?_, ?_⟩
  · rw [grants, found]
  · rw [released, summed]
  · unfold Settled at settled ⊢
    rw [released, claimed, refunded, schedules]
    exact settled
  · rw [schedules, claimed]
    exact scheduled
  · rw [released, claimed]
    exact within

theorem releaseMilestone_accounted {id : UInt64} {milestoneIndex : UInt32}
    {proposalId blockHeight : UInt64}
    (orderly : payments.Orderly grantId scheduleId total
      (.releaseMilestone id milestoneIndex proposalId blockHeight))
    (accounted : payments.Accounted grantId scheduleId total exactSum) :
    (payments.after grantId scheduleId
      (.releaseMilestone id milestoneIndex proposalId blockHeight)).Accounted grantId scheduleId
      total exactSum := by
  rcases payments.treasury.releaseMilestone_cases id milestoneIndex proposalId blockHeight with
    refused | ⟨grant, ms, -, found, live, listed, unreleased, done⟩
  · apply accounted.of_same <;> simp [after, refused]
  · by_cases same : id = grantId
    · subst same
      have amount : payments.treasury.milestoneAmount id milestoneIndex = ms.amount.toNat := by
        simp [Treasury.milestoneAmount, found, listed]
      have fits := orderly rfl (by rw [done])
      obtain ⟨wrapped, ⟨other, found', summed, settled⟩, scheduled, within⟩ := accounted
      rw [found] at found'
      cases found'
      have moved := Grant.release_pending listed unreleased blockHeight
      unfold Settled at settled
      rw [if_neg (by simp [live])] at settled
      rw [amount] at fits
      refine ⟨wrapped, ⟨grant.release milestoneIndex.toNat ms blockHeight, ?_, ?_, ?_⟩, ?_, ?_⟩
      · simp [after, done, Treasury.recordTx]
      · simp only [after, done, amount]
        simp only [and_self, if_true]
        omega
      · have stillLive : (grant.release milestoneIndex.toNat ms blockHeight).revoked = false := live
        simpa [Settled, stillLive, after, done] using settled
      · simpa [after, done, Treasury.recordTx, Treasury.schedule?] using scheduled
      · simp only [after, done, amount]
        simp only [and_self, if_true]
        omega
    · apply accounted.of_same
      · simp only [after, done, Treasury.recordTx]
        rw [getElem?_insert_eq, if_neg same]
      · simp [after, done, Treasury.recordTx, Treasury.schedule?]
      · simp [after, done, same]
      · simp [after, done]
      · simp [after, done]

theorem revokeGrant_accounted {id proposalId blockHeight : UInt64}
    (orderly : payments.Orderly grantId scheduleId total (.revokeGrant id proposalId blockHeight))
    (accounted : payments.Accounted grantId scheduleId total exactSum) :
    (payments.after grantId scheduleId (.revokeGrant id proposalId blockHeight)).Accounted grantId
      scheduleId total exactSum := by
  rcases payments.treasury.revokeGrant_cases id proposalId blockHeight with
    ⟨-, refused⟩ | ⟨grant, -, found, live, done⟩
  · apply accounted.of_same <;> simp [after, refused]
  · by_cases same : id = grantId
    · subst same
      obtain ⟨unclaimed, ended⟩ := orderly rfl (by rw [done])
      obtain ⟨wrapped, ⟨other, found', summed, settled⟩, scheduled, within⟩ := accounted
      rw [found] at found'
      cases found'
      unfold Settled at settled
      rw [if_neg (by simp [live])] at settled
      have refunded : grant.refund.toNat = total - payments.released := by
        rw [Grant.toNat_refund]
        omega
      refine ⟨wrapped, ⟨{ grant with revoked := true }, ?_, ?_, ?_⟩, ?_, ?_⟩
      · simp [after, done, Treasury.recordTx]
      · simpa [after, done, Grant.pending] using summed
      · simp only [Settled, after, done, found, Option.map_some, Option.getD_some, refunded]
        simp only [and_self, if_true]
        refine ⟨by omega, unclaimed, ?_⟩
        simpa [Treasury.schedule?, Treasury.recordTx, Treasury.setBalance] using ended
      · simpa [after, done, Treasury.recordTx, Treasury.schedule?, Treasury.setBalance] using scheduled
      · simpa [after, done] using within
    · apply accounted.of_same
      · simp only [after, done, Treasury.recordTx]
        rw [getElem?_insert_eq, if_neg same]
      · simp [after, done, Treasury.recordTx, Treasury.schedule?, Treasury.setBalance]
      · simp [after, done]
      · simp [after, done]
      · simp [after, done, same]

/-- Another schedule is stored under the schedule's id. -/
theorem Accounted.of_schedule {after : Payments} {s next : VestingSchedule}
    (accounted : payments.Accounted grantId scheduleId total exactSum)
    (found : payments.treasury.schedule? scheduleId = some s) (live : s.revoked = false)
    (grants : after.treasury.grants[grantId]? = payments.treasury.grants[grantId]?)
    (stored : after.treasury.schedule? scheduleId = some next)
    (released : after.released = payments.released) (refunded : after.refunded = payments.refunded)
    (claimed : next.claimedAmount.toNat = after.claimed)
    (within : after.released + after.claimed ≤ total) :
    after.Accounted grantId scheduleId total exactSum := by
  obtain ⟨wrapped, ⟨grant, granted, summed, settled⟩, -, -⟩ := accounted
  have notRevoked : grant.revoked = false := by
    cases ended : grant.revoked with
    | false => rfl
    | true =>
        rw [Settled, if_pos ended] at settled
        obtain ⟨-, -, other, found', revoked⟩ := settled
        rw [found] at found'
        cases found'
        rw [live] at revoked
        cases revoked
  rw [Settled, if_neg (by simp [notRevoked])] at settled
  refine ⟨wrapped, ⟨grant, grants.trans granted, ?_, ?_⟩, ⟨next, stored, claimed⟩, within⟩
  · rw [released, summed]
  · rw [Settled, if_neg (by simp [notRevoked]), refunded, settled]

theorem onRegistry_of_registry {treasury : Treasury} {registry : VestingRegistry}
    (attached : treasury.vestingRegistry = some registry)
    (call : VestingRegistry → UInt64 × VestingRegistry) :
    treasury.onRegistry call =
      ((call registry).1, { treasury with vestingRegistry := some (call registry).2 }) := by
  simp only [Treasury.onRegistry, attached]

theorem claim_accounted {id currentBlock : UInt64}
    (orderly : payments.Orderly grantId scheduleId total (.claim id currentBlock))
    (accounted : payments.Accounted grantId scheduleId total exactSum) :
    (payments.after grantId scheduleId (.claim id currentBlock)).Accounted grantId scheduleId total
      exactSum := by
  obtain ⟨mine, scheduled, claimed⟩ := accounted.schedule
  obtain ⟨registry, attached, found⟩ := Option.bind_eq_some_iff.mp scheduled
  have called := onRegistry_of_registry attached (·.claim id currentBlock)
  rcases registry.claim_cases id currentBlock with refused | ⟨s, stored, live, more, done⟩
  · rw [refused] at called
    apply accounted.of_same <;> simp [after, called, Treasury.schedule?, attached]
  · rw [done] at called
    by_cases same : id = scheduleId
    · subst same
      rw [found] at stored
      cases stored
      have owed : mine.claimable currentBlock ≠ 0 := by
        simp only [VestingSchedule.claimable, live, Bool.false_eq_true, if_false, more, if_true]
        intro zero
        rw [UInt64.lt_iff_toNat_lt] at more
        have small := congrArg UInt64.toNat zero
        rw [toNat_sub_of_le (UInt64.le_iff_toNat_le.mpr (Nat.le_of_lt more))] at small
        change _ = 0 at small
        omega
      have fits := orderly rfl mine scheduled owed
      have more' : mine.claimedAmount.toNat < (mine.computeVested currentBlock).toNat := more
      have paid := toNat_sub_of_le (UInt64.le_iff_toNat_le.mpr (Nat.le_of_lt more'))
      have small := (mine.computeVested currentBlock).toNat_lt
      apply accounted.of_schedule scheduled live
      · simp [after, called]
      · simp only [after, called, Treasury.schedule?, Option.bind_some]
        rw [getElem?_insert_eq, if_pos rfl]
      · simp [after, called]
      · simp [after, called]
      · simp only [after, called, if_true]
        rw [toNat_add_of_fits (by omega), paid, claimed]
      · simp only [after, called, if_true, paid]
        omega
    · apply accounted.of_same
      · simp [after, called]
      · simp only [after, called, Treasury.schedule?, Option.bind_some, attached]
        rw [getElem?_insert_eq, if_neg same]
      · simp [after, called]
      · simp [after, called, same]
      · simp [after, called]

theorem revokeSchedule_accounted {id proposalId currentBlock : UInt64}
    (accounted : payments.Accounted grantId scheduleId total exactSum) :
    (payments.after grantId scheduleId (.revokeSchedule id proposalId currentBlock)).Accounted grantId
      scheduleId total exactSum := by
  obtain ⟨mine, scheduled, claimed⟩ := accounted.schedule
  obtain ⟨registry, attached, found⟩ := Option.bind_eq_some_iff.mp scheduled
  have called := onRegistry_of_registry attached (·.revoke id proposalId currentBlock)
  rcases registry.revoke_cases id proposalId currentBlock with refused | ⟨s, stored, live, done⟩
  · rw [refused] at called
    apply accounted.of_same <;> simp [after, called, Treasury.schedule?, attached]
  · rw [done] at called
    by_cases same : id = scheduleId
    · subst same
      rw [found] at stored
      cases stored
      apply accounted.of_schedule scheduled live
      · simp [after, called]
      · simp only [after, called, Treasury.schedule?, Option.bind_some]
        rw [getElem?_insert_eq, if_pos rfl]
      · rfl
      · rfl
      · exact claimed
      · exact accounted.within
    · apply accounted.of_same
      · simp [after, called]
      · simp only [after, called, Treasury.schedule?, Option.bind_some, attached]
        rw [getElem?_insert_eq, if_neg same]
      · rfl
      · rfl
      · rfl

theorem after_accounted {call : PaymentCall} (orderly : payments.Orderly grantId scheduleId total call)
    (accounted : payments.Accounted grantId scheduleId total exactSum) :
    (payments.after grantId scheduleId call).Accounted grantId scheduleId total exactSum := by
  cases call with
  | releaseMilestone => exact releaseMilestone_accounted orderly accounted
  | revokeGrant => exact revokeGrant_accounted orderly accounted
  | claim => exact claim_accounted orderly accounted
  | revokeSchedule => exact revokeSchedule_accounted accounted

def start (treasury : Treasury) : Payments := ⟨treasury, 0, 0, 0⟩

/-- A grant that was just made has paid nothing, and its schedule is the next one of the
registry. -/
theorem start_accounted (treasury : Treasury) {registry : VestingRegistry}
    (attached : treasury.vestingRegistry = some registry) {proposalId : UInt64} {recipient : Bytes}
    {milestones : List (String × UInt64)}
    (made : treasury.GrantMade proposalId recipient milestones) (purpose : String)
    (blockHeight cliff : UInt64) {duration : UInt64} (positive : duration > 0) :
    (start (treasury.createGrant proposalId recipient purpose milestones blockHeight cliff
      duration).2).Accounted treasury.nextGrantId registry.nextId (milestoneTotal milestones).toNat
      (exactTotal milestones) := by
  have live : (treasury.newGrant proposalId recipient purpose milestones blockHeight).revoked = false :=
    rfl
  have reserved := treasury.newGrant_reserved proposalId recipient purpose milestones blockHeight
  rw [Grant.reserved, if_neg (by simp [live])] at reserved
  have named : recipient.isEmpty = false := by
    cases blank : recipient.isEmpty with
    | false => rfl
    | true => exact absurd (.inr (.inl blank)) made.1
  have timed : duration ≠ 0 := by
    rintro rfl
    exact absurd positive (by decide)
  have scheduled : registry.scheduleGrant
      (treasury.newGrant proposalId recipient purpose milestones blockHeight) blockHeight cliff
      duration = ⟨registry.schedules.insert registry.nextId
        (registry.newSchedule recipient (milestoneTotal milestones) blockHeight cliff duration
          treasury.nextGrantId), registry.nextId + 1⟩ := by
    rw [VestingRegistry.scheduleGrant, if_pos positive]
    exact congrArg Prod.snd
      (registry.createSchedule_of_made named made.2.1 timed blockHeight cliff treasury.nextGrantId)
  rw [treasury.createGrant_of_made made]
  refine ⟨(Treasury.toNat_milestoneTotal milestones).symm,
    ⟨treasury.newGrant proposalId recipient purpose milestones blockHeight, ?_, ?_, ?_⟩,
    ⟨registry.newSchedule recipient (milestoneTotal milestones) blockHeight cliff duration
      treasury.nextGrantId, ?_, rfl⟩, Nat.zero_le _⟩
  · change (treasury.grants.insert treasury.nextGrantId _)[treasury.nextGrantId]? = _
    rw [getElem?_insert_eq, if_pos rfl]
  · change 0 + Grant.pending _ = _
    rw [reserved, Nat.zero_add]
  · rw [Settled, if_neg (by simp [live])]
    rfl
  · simp only [start, Treasury.schedule?, attached, Option.map_some, Option.bind_some, scheduled]
    rw [getElem?_insert_eq, if_pos rfl]

/-- In a run of calls that meet their conditions, a vested grant pays within what was
reserved for it, and nothing after it is revoked. -/
theorem orderly_payments_within {treasury : Treasury} {registry : VestingRegistry}
    (attached : treasury.vestingRegistry = some registry) {proposalId : UInt64} {recipient : Bytes}
    {purpose : String} {milestones : List (String × UInt64)} {blockHeight cliff duration : UInt64}
    (made : treasury.GrantMade proposalId recipient milestones) (positive : duration > 0)
    {calls : List PaymentCall} {payments : Payments}
    (run : Run (OrderlyStep treasury.nextGrantId registry.nextId (milestoneTotal milestones).toNat)
      (start (treasury.createGrant proposalId recipient purpose milestones blockHeight cliff
        duration).2) calls payments) :
    payments.WithinTotal treasury.nextGrantId registry.nextId (milestoneTotal milestones).toNat := by
  have accounted : payments.Accounted treasury.nextGrantId registry.nextId
      (milestoneTotal milestones).toNat (exactTotal milestones) := by
    apply run.invariant (motive := fun payments => payments.Accounted treasury.nextGrantId
      registry.nextId (milestoneTotal milestones).toNat (exactTotal milestones))
    · exact start_accounted treasury attached made purpose blockHeight cliff positive
    · rintro payments call _ accounted ⟨orderly, rfl⟩
      exact after_accounted orderly accounted
  exact accounted.withinTotal

end Payments

/-! ## A grant paid twice -/

namespace VestedGrant

/-- A treasury with ten units for grants and a vesting registry. -/
def funded : Treasury :=
  ({ Treasury.new 2 0 with vestingRegistry := some .new }.deposit 10 [1] .grants 0).2

theorem attached : funded.vestingRegistry = some .new := rfl

theorem made (milestones : List (String × UInt64)) (some_ : milestones.isEmpty = false)
    (ten : milestoneTotal milestones = 10) : funded.GrantMade 1 [2] milestones := by
  refine ⟨by simp [some_], ?_, ?_⟩
  · rw [ten]
    decide
  · rw [ten]
    decide +kernel

end VestedGrant

open VestedGrant in
/-- The milestone is released, and then the schedule pays the same again. -/
theorem Payments.paid_twice :
    ¬ ∀ (treasury : Treasury) (registry : VestingRegistry) (proposalId : UInt64) (recipient : Bytes)
      (purpose : String) (milestones : List (String × UInt64)) (blockHeight cliff duration : UInt64)
      (calls : List PaymentCall), treasury.vestingRegistry = some registry →
      treasury.GrantMade proposalId recipient milestones → duration > 0 →
      (calls.foldl (Payments.after treasury.nextGrantId registry.nextId)
        (.start (treasury.createGrant proposalId recipient purpose milestones blockHeight cliff
          duration).2)).WithinTotal treasury.nextGrantId registry.nextId
        (milestoneTotal milestones).toNat := by
  intro claim
  have within := (claim funded .new 1 [2] "grant" [("all", 10)] 0 0 10
    [.releaseMilestone 1 0 1 1, .claim 1 100] attached (made _ rfl rfl) (by decide)).1
  revert within
  decide +kernel

open VestedGrant Payments in
/-- Half of the grant vests and is claimed, the other half is released as a milestone. -/
theorem Payments.orderly_payments_within_halves :
    ∃ payments, Run (OrderlyStep 1 1 10)
        (.start (funded.createGrant 1 [2] "grant" [("first", 5), ("second", 5)] 0 0 10).2)
        [.claim 1 5, .releaseMilestone 1 0 1 6] payments ∧
      payments.claimed = 5 ∧ payments.released = 5 ∧ payments.WithinTotal 1 1 10 := by
  have made := VestedGrant.made [("first", 5), ("second", 5)] rfl rfl
  have claimed : Run (OrderlyStep 1 1 10)
      (.start (funded.createGrant 1 [2] "grant" [("first", 5), ("second", 5)] 0 0 10).2) _ _ :=
    Run.start.step (⟨fun _ s found _ => by
      cases found
      decide +kernel, rfl⟩ : OrderlyStep 1 1 10 _ (.claim 1 5) _)
  have released := claimed.step (⟨fun _ _ => by decide +kernel, rfl⟩ :
    OrderlyStep 1 1 10 _ (.releaseMilestone 1 0 1 6) _)
  have within := orderly_payments_within attached made (by decide) released
  exact ⟨_, released, by decide +kernel, by decide +kernel, within⟩

end Parthenon.Governance
