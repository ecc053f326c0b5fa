import Parthenon.Governance.VestingExact

namespace Parthenon.Governance

open Library Std

/-! # Revoked schedules

What is claimed before a revocation, what could have been claimed when it came and what it
returns are the three parts of the total.  The second part is out of reach afterwards.
-/

inductive VestingCall
  | claim (scheduleId currentBlock : UInt64)
  | revoke (scheduleId proposalId currentBlock : UInt64)

def VestingCall.block : VestingCall → UInt64
  | .claim _ currentBlock => currentBlock
  | .revoke _ _ currentBlock => currentBlock

namespace VestingRegistry

def apply (registry : VestingRegistry) : VestingCall → VestingRegistry
  | .claim scheduleId currentBlock => (registry.claim scheduleId currentBlock).2
  | .revoke scheduleId proposalId currentBlock =>
      (registry.revoke scheduleId proposalId currentBlock).2

/-- What a call pays on a schedule. -/
def paid (scheduleId : UInt64) (registry : VestingRegistry) : VestingCall → Nat
  | .claim id currentBlock =>
      if id = scheduleId then (registry.claim id currentBlock).1.toNat else 0
  | .revoke .. => 0

/-- What the calls pay on a schedule in all. -/
def paidBy (scheduleId : UInt64) : VestingRegistry → List VestingCall → Nat
  | _, [] => 0
  | registry, call :: rest =>
      registry.paid scheduleId call + paidBy scheduleId (registry.apply call) rest

/-- A revocation that is authorised and finds the schedule unrevoked succeeds. -/
def Revocable (registry : VestingRegistry) (scheduleId proposalId : UInt64) : Prop :=
  proposalId ≠ 0 ∧ registry.schedules[scheduleId]?.map (·.revoked) = some false

instance (registry : VestingRegistry) (scheduleId proposalId : UInt64) :
    Decidable (registry.Revocable scheduleId proposalId) := inferInstanceAs (Decidable (_ ∧ _))

theorem paidBy_append {scheduleId : UInt64} (registry : VestingRegistry)
    (before later : List VestingCall) :
    paidBy scheduleId registry (before ++ later) =
      paidBy scheduleId registry before + paidBy scheduleId (before.foldl apply registry) later := by
  induction before generalizing registry with
  | nil => exact (Nat.zero_add _).symm
  | cons call rest ih =>
      rw [List.cons_append, paidBy, paidBy, ih, Nat.add_assoc]
      rfl

/-- The stored schedule has the terms it was made with, `claimed` is what it has paid, and no
more than that had vested at the block `latest`. -/
structure Follows (registry : VestingRegistry) (scheduleId : UInt64) (s : VestingSchedule)
    (claimed : Nat) (latest : UInt64) : Prop where
  stored : ∃ stored, registry.schedules[scheduleId]? = some stored ∧
    stored.totalAmount = s.totalAmount ∧
    (∀ block, stored.computeVested block = s.computeVested block) ∧
    stored.claimedAmount.toNat = claimed
  vested : claimed ≤ (s.computeVested latest).toNat

section Step

variable {registry : VestingRegistry} {scheduleId : UInt64} {s : VestingSchedule} {claimed : Nat}
  {latest block : UInt64}

theorem Follows.later (follows : registry.Follows scheduleId s claimed latest)
    (mono : s.computeVested latest ≤ s.computeVested block) :
    registry.Follows scheduleId s claimed block where
  stored := follows.stored
  vested := follows.vested.trans (UInt64.le_iff_toNat_le.mp mono)

/-- Where another schedule is changed, this one is as it was. -/
theorem Follows.of_ne (follows : registry.Follows scheduleId s claimed latest) {id : UInt64}
    (other : id ≠ scheduleId) (changed : VestingSchedule) :
    ({ registry with schedules := registry.schedules.insert id changed } :
      VestingRegistry).Follows scheduleId s claimed latest where
  stored := by
    obtain ⟨stored, found, terms⟩ := follows.stored
    refine ⟨stored, ?_, terms⟩
    dsimp only
    rw [getElem?_insert_eq, if_neg other, found]
  vested := follows.vested

theorem claim_follows (follows : registry.Follows scheduleId s claimed latest) {id : UInt64}
    (mono : s.computeVested latest ≤ s.computeVested block) :
    (registry.claim id block).2.Follows scheduleId s
      (claimed + registry.paid scheduleId (.claim id block)) block := by
  have later := follows.later mono
  simp only [paid]
  rcases registry.claim_cases id block with nothing | ⟨stored, found, -, more, done⟩
  · rw [nothing, UInt64.toNat_zero, ite_self, Nat.add_zero]
    exact later
  rw [done]
  by_cases here : id = scheduleId
  · subst here
    obtain ⟨_, isStored, total, vested, counted⟩ := follows.stored
    obtain rfl := Option.some.inj (found.symm.trans isStored)
    have below : stored.claimedAmount ≤ stored.computeVested block := UInt64.le_of_lt more
    have sum : stored.claimedAmount + (stored.computeVested block - stored.claimedAmount) =
        stored.computeVested block := by
      rw [UInt64.add_comm]
      exact UInt64.sub_add_cancel _ _
    have taken := toNat_sub_of_le below
    have order := UInt64.le_iff_toNat_le.mp below
    have caughtUp : claimed + (stored.computeVested block - stored.claimedAmount).toNat =
        (s.computeVested block).toNat := by
      rw [← vested]
      omega
    rw [if_pos rfl, caughtUp, sum]
    refine ⟨⟨_, ExtTreeMap.getElem?_insert_self, total, vested, ?_⟩, Nat.le_refl _⟩
    rw [vested]
  · rw [if_neg here, Nat.add_zero]
    exact later.of_ne here _

theorem revoke_follows (follows : registry.Follows scheduleId s claimed latest)
    {id proposalId : UInt64} (mono : s.computeVested latest ≤ s.computeVested block) :
    (registry.revoke id proposalId block).2.Follows scheduleId s claimed block := by
  have later := follows.later mono
  rcases registry.revoke_cases id proposalId block with refused | ⟨stored, found, -, done⟩
  · rw [refused]
    exact later
  rw [done]
  by_cases here : id = scheduleId
  · subst here
    obtain ⟨_, isStored, total, vested, counted⟩ := later.stored
    obtain rfl := Option.some.inj (found.symm.trans isStored)
    exact ⟨⟨_, ExtTreeMap.getElem?_insert_self, total, vested, counted⟩, later.vested⟩
  · exact later.of_ne here _

theorem apply_follows (follows : registry.Follows scheduleId s claimed latest) (call : VestingCall)
    (mono : s.computeVested latest ≤ s.computeVested call.block) :
    (registry.apply call).Follows scheduleId s (claimed + registry.paid scheduleId call)
      call.block := by
  cases call with
  | claim id block => exact claim_follows follows mono
  | revoke id proposalId block => exact revoke_follows follows mono

theorem run_follows (mono : ∀ earlier later, earlier ≤ later → s.computeVested earlier ≤ s.computeVested later)
    {calls : List VestingCall} (ordered : calls.Pairwise fun first second => first.block ≤ second.block)
    (follows : registry.Follows scheduleId s claimed latest)
    (since : ∀ call ∈ calls, latest ≤ call.block) (upTo : ∀ call ∈ calls, call.block ≤ block)
    (le : latest ≤ block) :
    (calls.foldl apply registry).Follows scheduleId s (claimed + paidBy scheduleId registry calls)
      block := by
  induction calls generalizing registry claimed latest with
  | nil => exact follows.later (mono _ _ le)
  | cons call rest ih =>
      obtain ⟨first, ordered⟩ := List.pairwise_cons.mp ordered
      obtain ⟨here, upTo⟩ := List.forall_mem_cons.mp upTo
      have step := apply_follows follows call (mono _ _ (since call List.mem_cons_self))
      rw [paidBy, ← Nat.add_assoc]
      exact ih ordered step first upTo here

end Step

/-! ## The revocation -/

section Revocation

variable {registry : VestingRegistry} {scheduleId proposalId block : UInt64}

def Revoked (registry : VestingRegistry) (scheduleId : UInt64) : Prop :=
  registry.schedules[scheduleId]?.map (·.revoked) = some true

/-- What is claimed, what can be claimed and what is returned are the total. -/
theorem revoke_settles {s : VestingSchedule} {claimed : Nat}
    (follows : registry.Follows scheduleId s claimed block)
    (revocable : registry.Revocable scheduleId proposalId) :
    claimed + (registry.getClaimable scheduleId block).toNat +
        (registry.revoke scheduleId proposalId block).1.toNat = s.totalAmount.toNat ∧
      (registry.revoke scheduleId proposalId block).2.Revoked scheduleId := by
  obtain ⟨authorised, live⟩ := revocable
  obtain ⟨stored, found, total, vested, counted⟩ := follows.stored
  rw [found] at live
  have live : stored.revoked = false := Option.some.inj live
  have bound := follows.vested
  have le := UInt64.le_iff_toNat_le.mp (s.computeVested_le block)
  have claimable : (registry.getClaimable scheduleId block).toNat =
      (s.computeVested block).toNat - claimed := by
    simp only [getClaimable, found, VestingSchedule.claimable, live, vested]
    simp only [Bool.false_eq_true, if_false]
    split
    · rename_i more
      rw [toNat_sub_of_le (UInt64.le_of_lt more), counted]
    · rename_i nothing
      have none : (s.computeVested block).toNat ≤ stored.claimedAmount.toNat :=
        UInt64.not_lt.mp nothing
      rw [UInt64.toNat_zero]
      omega
  have reclaimable : (stored.reclaimable block).toNat =
      s.totalAmount.toNat - (s.computeVested block).toNat := by
    simp only [VestingSchedule.reclaimable, live, vested, total]
    simp only [Bool.false_eq_true, if_false]
    split
    · rename_i more
      rw [toNat_sub_of_le (UInt64.le_of_lt more)]
    · rename_i nothing
      have none : s.totalAmount.toNat ≤ (s.computeVested block).toNat := UInt64.not_lt.mp nothing
      rw [UInt64.toNat_zero]
      omega
  have done : registry.revoke scheduleId proposalId block =
      (stored.reclaimable block,
        { registry with
          schedules := registry.schedules.insert scheduleId
            { stored with revoked := true, revokedAtBlock := block } }) := by
    simp [revoke, authorised, found, live, getReclaimable]
  rw [done, claimable, reclaimable]
  refine ⟨by omega, ?_⟩
  unfold Revoked
  dsimp only
  rw [ExtTreeMap.getElem?_insert_self]
  rfl

theorem Revoked.nothing_claimable (revoked : registry.Revoked scheduleId) (block : UInt64) :
    registry.getClaimable scheduleId block = 0 := by
  obtain ⟨stored, found, isRevoked⟩ := Option.map_eq_some_iff.mp revoked
  simp only [getClaimable, found, VestingSchedule.claimable, isRevoked, if_true]

theorem Revoked.insert_ne (revoked : registry.Revoked scheduleId) {id : UInt64}
    (other : id ≠ scheduleId) (changed : VestingSchedule) :
    ({ registry with schedules := registry.schedules.insert id changed } :
      VestingRegistry).Revoked scheduleId := by
  unfold Revoked
  dsimp only
  rwa [getElem?_insert_eq, if_neg other]

/-- Where a schedule is live, it is another one. -/
theorem Revoked.ne_of_live (revoked : registry.Revoked scheduleId) {id : UInt64}
    {other : VestingSchedule} (isOther : registry.schedules[id]? = some other)
    (live : other.revoked = false) : id ≠ scheduleId := by
  obtain ⟨stored, found, isRevoked⟩ := Option.map_eq_some_iff.mp revoked
  rintro rfl
  obtain rfl := Option.some.inj (found.symm.trans isOther)
  rw [live] at isRevoked
  cases isRevoked

/-- A revoked schedule pays nothing and stays revoked. -/
theorem Revoked.apply (revoked : registry.Revoked scheduleId) (call : VestingCall) :
    registry.paid scheduleId call = 0 ∧ (registry.apply call).Revoked scheduleId := by
  cases call with
  | claim id block =>
      simp only [paid, VestingRegistry.apply]
      rcases registry.claim_cases id block with nothing | ⟨other, isOther, live, -, done⟩
      · rw [nothing]
        exact ⟨ite_self _, revoked⟩
      · have elsewhere := revoked.ne_of_live isOther live
        rw [done]
        exact ⟨if_neg elsewhere, revoked.insert_ne elsewhere _⟩
  | revoke id proposalId block =>
      refine ⟨rfl, ?_⟩
      simp only [VestingRegistry.apply]
      rcases registry.revoke_cases id proposalId block with refused | ⟨other, isOther, live, done⟩
      · rw [refused]
        exact revoked
      · have elsewhere := revoked.ne_of_live isOther live
        rw [done]
        exact revoked.insert_ne elsewhere _

theorem Revoked.run (revoked : registry.Revoked scheduleId) (calls : List VestingCall) :
    paidBy scheduleId registry calls = 0 ∧
      (calls.foldl VestingRegistry.apply registry).Revoked scheduleId := by
  induction calls generalizing registry with
  | nil => exact ⟨rfl, revoked⟩
  | cons call rest ih =>
      obtain ⟨nothing, after⟩ := revoked.apply call
      obtain ⟨later, finally_⟩ := ih after
      exact ⟨by rw [paidBy, nothing, later], finally_⟩

end Revocation

/-- What is claimed around a revocation, what could have been claimed at it and what it returns
are the total, and nothing can be claimed after it. -/
structure Settles (registry : VestingRegistry) (scheduleId : UInt64) (total : Nat)
    (before : List VestingCall) (proposalId block : UInt64) (later : List VestingCall) : Prop where
  parts :
    paidBy scheduleId registry (before ++ .revoke scheduleId proposalId block :: later) +
        ((before.foldl apply registry).getClaimable scheduleId block).toNat +
        ((before.foldl apply registry).revoke scheduleId proposalId block).1.toNat = total
  closed : ∀ current, ((before ++ .revoke scheduleId proposalId block :: later).foldl apply
    registry).getClaimable scheduleId current = 0

/-- What is claimed around a revocation, what can be claimed after it and what it returns are the
total. -/
def StrandsNothing (registry : VestingRegistry) (scheduleId : UInt64) (total : Nat)
    (before : List VestingCall) (proposalId block : UInt64) (later : List VestingCall) : Prop :=
  ∀ current,
    paidBy scheduleId registry (before ++ .revoke scheduleId proposalId block :: later) +
        (((before ++ .revoke scheduleId proposalId block :: later).foldl apply
          registry).getClaimable scheduleId current).toNat +
        ((before.foldl apply registry).revoke scheduleId proposalId block).1.toNat = total

/-- A schedule that vests more and more settles in a run that does not go back in time. -/
theorem Follows.settles {registry : VestingRegistry} {scheduleId proposalId block : UInt64}
    {s : VestingSchedule}
    (mono : ∀ earlier later, earlier ≤ later → s.computeVested earlier ≤ s.computeVested later)
    (made : registry.Follows scheduleId s 0 0) {before later : List VestingCall}
    (ordered : (before ++ .revoke scheduleId proposalId block :: later).Pairwise
      fun first second => first.block ≤ second.block)
    (revocable : (before.foldl apply registry).Revocable scheduleId proposalId) :
    registry.Settles scheduleId s.totalAmount.toNat before proposalId block later := by
  obtain ⟨earlier, -, across⟩ := List.pairwise_append.mp ordered
  have upTo : ∀ call ∈ before, call.block ≤ block :=
    fun call member => across call member _ List.mem_cons_self
  have reached := run_follows mono earlier made (fun _ _ => UInt64.zero_le) upTo UInt64.zero_le
  rw [Nat.zero_add] at reached
  obtain ⟨parts, revoked⟩ := revoke_settles reached revocable
  obtain ⟨nothing, closed⟩ := revoked.run later
  constructor
  · have afterwards : paidBy scheduleId (before.foldl apply registry)
        (.revoke scheduleId proposalId block :: later) = 0 := (Nat.zero_add _).trans nothing
    rw [paidBy_append, afterwards, Nat.add_zero]
    exact parts
  · intro current
    rw [List.foldl_append]
    exact closed.nothing_claimable current

/-- A schedule whose vesting fits settles at its revocation. -/
theorem createSchedule_settles (registry : VestingRegistry) (beneficiary : Bytes)
    (total start cliff duration grantId : UInt64)
    (accepted :
      (registry.createSchedule beneficiary total start cliff duration grantId).1 ≠ 0)
    (fits : VestingFits total.toNat start.toNat cliff.toNat duration.toNat)
    (before later : List VestingCall) (proposalId block : UInt64)
    (ordered : (before ++ .revoke
        (registry.createSchedule beneficiary total start cliff duration grantId).1 proposalId block ::
          later).Pairwise fun first second => first.block ≤ second.block)
    (revocable : (before.foldl apply
        (registry.createSchedule beneficiary total start cliff duration grantId).2).Revocable
      (registry.createSchedule beneficiary total start cliff duration grantId).1 proposalId) :
    (registry.createSchedule beneficiary total start cliff duration grantId).2.Settles
      (registry.createSchedule beneficiary total start cliff duration grantId).1 total.toNat before
      proposalId block later := by
  obtain ⟨named, some_, timed⟩ := registry.createSchedule_accepted accepted
  rw [registry.createSchedule_of_made named some_ timed] at ordered revocable ⊢
  let s := registry.newSchedule beneficiary total start cliff duration grantId
  have sound : s.Accepted := ⟨some_, timed⟩
  have mono (earlier later : UInt64) (le : earlier ≤ later) :
      s.computeVested earlier ≤ s.computeVested later := by
    rw [UInt64.le_iff_toNat_le, s.computeVested_exact sound fits, s.computeVested_exact sound fits]
    exact exactVested_mono _ _ _ _ (UInt64.le_iff_toNat_le.mp le)
  have made : VestingRegistry.Follows
      ⟨registry.schedules.insert registry.nextId s, registry.nextId + 1⟩ registry.nextId s 0 0 :=
    ⟨⟨s, ExtTreeMap.getElem?_insert_self, rfl, fun _ => rfl, rfl⟩, Nat.zero_le _⟩
  exact made.settles mono ordered revocable

/-- A claim before the revocation, and one that comes too late. -/
theorem grant_settles :
    (VestingRegistry.new.createSchedule [1] 100 0 0 10 0).2.Settles
      (VestingRegistry.new.createSchedule [1] 100 0 0 10 0).1 100 [.claim 1 3] 7 5 [.claim 1 6] :=
  createSchedule_settles VestingRegistry.new [1] 100 0 0 10 0 (by decide) (by decide) [.claim 1 3]
    [.claim 1 6] 7 5 (by decide) (by decide +kernel)

/-- Half of the amount has vested and is not claimed when the schedule is revoked. -/
theorem vested_stranded :
    ¬ ∀ (registry : VestingRegistry) (beneficiary : Bytes)
      (total start cliff duration grantId : UInt64),
      (registry.createSchedule beneficiary total start cliff duration grantId).1 ≠ 0 →
      VestingFits total.toNat start.toNat cliff.toNat duration.toNat →
      ∀ (before later : List VestingCall) (proposalId block : UInt64),
      (before ++ .revoke
        (registry.createSchedule beneficiary total start cliff duration grantId).1 proposalId block ::
          later).Pairwise (fun first second => first.block ≤ second.block) →
      (before.foldl apply
        (registry.createSchedule beneficiary total start cliff duration grantId).2).Revocable
          (registry.createSchedule beneficiary total start cliff duration grantId).1 proposalId →
        (registry.createSchedule beneficiary total start cliff duration grantId).2.StrandsNothing
          (registry.createSchedule beneficiary total start cliff duration grantId).1 total.toNat
          before proposalId block later := by
  intro claim
  have parts := claim VestingRegistry.new [1] 100 0 0 10 0 (by decide) (by decide) [] [] 7 5
    (by decide) (by decide +kernel) 5
  revert parts
  decide +kernel

end VestingRegistry

end Parthenon.Governance
