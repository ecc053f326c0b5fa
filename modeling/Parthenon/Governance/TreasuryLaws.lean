import Parthenon.Governance.Treasury
import Parthenon.Library.Sums
import Parthenon.Library.Runs

namespace Parthenon.Governance

open Library Std

/-! # Treasury conservation

What the tracks hold, what the grants keep back and what was paid out add up to
the deposits, in exact arithmetic.
-/

/-- The exact amount of a milestone that is still to be released. -/
def Milestone.pending (ms : Milestone) : Nat := if ms.released then 0 else ms.amount.toNat

/-- The exact sum of the milestones that are still to be released. -/
def Grant.pending (grant : Grant) : Nat := (grant.milestones.map Milestone.pending).sum

/-- What the treasury keeps back for a grant. -/
def Grant.reserved (grant : Grant) : Nat := if grant.revoked then 0 else grant.pending

theorem Grant.toNat_refund (grant : Grant) : grant.refund.toNat = grant.pending % 2 ^ 64 := by
  have summed := toNat_foldl_wrapping
    (fun refund (ms : Milestone) => if ms.released then refund else refund + ms.amount)
    Milestone.pending (fun refund ms => by
      have small := refund.toNat_lt
      cases released : ms.released
      · simp [Milestone.pending, released, UInt64.toNat_add]
      · simp only [Milestone.pending, released, if_true, Nat.add_zero]
        omega) grant.milestones 0
  simpa [Grant.refund, Grant.pending] using summed

theorem Grant.toNat_refund_of_fits {grant : Grant} (live : grant.revoked = false)
    (fits : grant.reserved < 2 ^ 64) : grant.refund.toNat = grant.reserved := by
  have whole : grant.reserved = grant.pending := if_neg (by simp [live])
  rw [Grant.toNat_refund, ← whole, Nat.mod_eq_of_lt fits]

theorem Grant.release_pending {grant : Grant} {index : Nat} {ms : Milestone}
    (listed : grant.milestones[index]? = some ms) (unreleased : ms.released = false)
    (blockHeight : UInt64) :
    (grant.release index ms blockHeight).pending + ms.amount.toNat = grant.pending := by
  have moved := sum_map_set Milestone.pending listed
    { ms with released := true, releasedAtBlock := blockHeight }
  simp only [Milestone.pending, unreleased] at moved
  simpa [Grant.release, Grant.pending, Milestone.pending] using moved

namespace Treasury

/-- The exact sum of the balances. -/
def held (treasury : Treasury) : Nat :=
  (Track.all.map fun track => (treasury.balances track).toNat).sum

/-- The exact sum of what is kept back for grants. -/
def reserved (treasury : Treasury) : Nat := total (fun _ grant => grant.reserved) treasury.grants

theorem held_setBalance (treasury : Treasury) (track : Track) (amount : UInt64) :
    (treasury.setBalance track amount).held + (treasury.balances track).toNat =
      treasury.held + amount.toNat := by
  cases track <;> simp [held, setBalance, Track.all, Function.update] <;> omega

theorem balance_le_held (treasury : Treasury) (track : Track) :
    (treasury.balances track).toNat ≤ treasury.held := by
  cases track <;> simp [held, Track.all] <;> omega

@[simp] theorem recordTx_held (treasury : Treasury) (isDeposit : Bool) (amount : UInt64)
    (address : Bytes) (track : Track) (proposalId grantId : UInt64) (purpose : String)
    (blockHeight : UInt64) :
    (treasury.recordTx isDeposit amount address track proposalId grantId purpose blockHeight).held =
      treasury.held := rfl

@[simp] theorem recordTx_reserved (treasury : Treasury) (isDeposit : Bool) (amount : UInt64)
    (address : Bytes) (track : Track) (proposalId grantId : UInt64) (purpose : String)
    (blockHeight : UInt64) :
    (treasury.recordTx isDeposit amount address track proposalId grantId purpose
      blockHeight).reserved = treasury.reserved := rfl

end Treasury

/-- A call of a treasury. -/
inductive TreasuryCall
  | addGuardian (address : Bytes)
  | removeGuardian (address : Bytes)
  | setMultiSigRequired (count : UInt32)
  | setReserveRatioBps (bps : UInt64)
  | deposit (amount : UInt64) (sender : Bytes) (track : Track) (blockHeight : UInt64)
  | spend (amount : UInt64) (recipient : Bytes) (proposalId : UInt64) (track : Track)
      (purpose : String) (blockHeight : UInt64)
  | proposeMultiSigSpend (amount : UInt64) (recipient : Bytes) (purpose : String)
      (initiator : Bytes) (blockHeight : UInt64)
  | signMultiSigSpend (spendId : UInt64) (guardian : Bytes)
  | executeMultiSigSpend (spendId blockHeight : UInt64)
  | createBudgetPeriod (startBlock endBlock : UInt64) (limits : Track → UInt64)
      (proposalId : UInt64)
  | createGrant (proposalId : UInt64) (recipient : Bytes) (purpose : String)
      (milestones : List (String × UInt64))
      (blockHeight vestingCliffBlocks vestingDurationBlocks : UInt64)
  | releaseMilestone (grantId : UInt64) (milestoneIndex : UInt32) (proposalId blockHeight : UInt64)
  | revokeGrant (grantId proposalId blockHeight : UInt64)

/-- The calls that move no money. -/
def TreasuryCall.quiet : TreasuryCall → Bool
  | .deposit .. | .spend .. | .executeMultiSigSpend .. | .createGrant .. | .releaseMilestone ..
  | .revokeGrant .. => false
  | .addGuardian .. | .removeGuardian .. | .setMultiSigRequired .. | .setReserveRatioBps ..
  | .proposeMultiSigSpend .. | .signMultiSigSpend .. | .createBudgetPeriod .. => true

namespace Treasury

def apply (treasury : Treasury) : TreasuryCall → Treasury
  | .addGuardian address => (treasury.addGuardian address).2
  | .removeGuardian address => (treasury.removeGuardian address).2
  | .setMultiSigRequired count => { treasury with multisigRequired := count }
  | .setReserveRatioBps bps => { treasury with reserveRatioBps := bps }
  | .deposit amount sender track blockHeight => (treasury.deposit amount sender track blockHeight).2
  | .spend amount recipient proposalId track purpose blockHeight =>
      (treasury.spend amount recipient proposalId track purpose blockHeight).2
  | .proposeMultiSigSpend amount recipient purpose initiator blockHeight =>
      (treasury.proposeMultiSigSpend amount recipient purpose initiator blockHeight).2
  | .signMultiSigSpend spendId guardian => (treasury.signMultiSigSpend spendId guardian).2
  | .executeMultiSigSpend spendId blockHeight => (treasury.executeMultiSigSpend spendId blockHeight).2
  | .createBudgetPeriod startBlock endBlock limits proposalId =>
      (treasury.createBudgetPeriod startBlock endBlock limits proposalId).2
  | .createGrant proposalId recipient purpose milestones blockHeight cliff duration =>
      (treasury.createGrant proposalId recipient purpose milestones blockHeight cliff duration).2
  | .releaseMilestone grantId milestoneIndex proposalId blockHeight =>
      (treasury.releaseMilestone grantId milestoneIndex proposalId blockHeight).2
  | .revokeGrant grantId proposalId blockHeight => (treasury.revokeGrant grantId proposalId blockHeight).2

/-- What a call takes in. -/
def takenIn (treasury : Treasury) : TreasuryCall → Nat
  | .deposit amount sender track blockHeight =>
      if (treasury.deposit amount sender track blockHeight).1 then amount.toNat else 0
  | _ => 0

/-- What a call pays to someone outside. -/
def paidOut (treasury : Treasury) : TreasuryCall → Nat
  | .spend amount recipient proposalId track purpose blockHeight =>
      if (treasury.spend amount recipient proposalId track purpose blockHeight).1 then amount.toNat
      else 0
  | .executeMultiSigSpend spendId blockHeight =>
      if (treasury.executeMultiSigSpend spendId blockHeight).1 then
        (treasury.multisigSpends[spendId]?.map (·.amount.toNat)).getD 0
      else 0
  | .releaseMilestone grantId milestoneIndex proposalId blockHeight =>
      if (treasury.releaseMilestone grantId milestoneIndex proposalId blockHeight).1 then
        ((treasury.grants[grantId]?.bind (·.milestones[milestoneIndex.toNat]?)).map
          (·.amount.toNat)).getD 0
      else 0
  | _ => 0

/-! ## What each call does -/

section Cases

variable (treasury : Treasury)

theorem addGuardian_cases (address : Bytes) :
    treasury.addGuardian address = (false, treasury) ∨
    treasury.isGuardian address = false ∧
      treasury.addGuardian address =
        (true, { treasury with guardians := treasury.guardians ++ [address] }) := by
  unfold addGuardian
  cases address.isEmpty with
  | true => exact .inl rfl
  | false =>
      cases treasury.isGuardian address with
      | true => exact .inl rfl
      | false => exact .inr ⟨rfl, rfl⟩

theorem removeGuardian_cases (address : Bytes) :
    treasury.removeGuardian address = (false, treasury) ∨
    treasury.removeGuardian address =
      (true, { treasury with guardians := treasury.guardians.erase address }) := by
  unfold removeGuardian
  cases treasury.isGuardian address with
  | true => exact .inr rfl
  | false => exact .inl rfl

theorem deposit_cases (amount : UInt64) (sender : Bytes) (track : Track) (blockHeight : UInt64) :
    amount = 0 ∧ treasury.deposit amount sender track blockHeight = (false, treasury) ∨
    amount ≠ 0 ∧
      treasury.deposit amount sender track blockHeight =
        (true, (treasury.setBalance track (treasury.balances track + amount)).recordTx true amount
          sender track 0 0 "deposit" blockHeight) := by
  unfold deposit
  by_cases zero : amount = 0
  · exact .inl ⟨zero, if_pos zero⟩
  · exact .inr ⟨zero, if_neg zero⟩

/-- A spend is refused, or pays an authorised amount that the track covers within its budget and
above the reserve. -/
theorem spend_cases (amount : UInt64) (recipient : Bytes) (proposalId : UInt64) (track : Track)
    (purpose : String) (blockHeight : UInt64) :
    treasury.spend amount recipient proposalId track purpose blockHeight = (false, treasury) ∨
    proposalId ≠ 0 ∧ amount ≠ 0 ∧ track ≠ .emergency ∧ amount ≤ treasury.balances track ∧
      treasury.isWithinBudget track amount blockHeight = true ∧
      treasury.violatesReserve amount = false ∧
      treasury.spend amount recipient proposalId track purpose blockHeight =
        (true,
          { treasury.setBalance track (treasury.balances track - amount) with
            budgetPeriods := chargeBudget track amount blockHeight treasury.budgetPeriods }.recordTx
            false amount recipient track proposalId 0 purpose blockHeight) := by
  unfold spend
  by_cases unauthorised : proposalId = 0
  · exact .inl (if_pos unauthorised)
  by_cases zero : amount = 0
  · exact .inl (by rw [if_neg unauthorised, if_pos zero])
  by_cases reserve : track = .emergency
  · exact .inl (by rw [if_neg unauthorised, if_neg zero, if_pos reserve])
  by_cases uncovered : amount > treasury.balances track
  · exact .inl (by rw [if_neg unauthorised, if_neg zero, if_neg reserve, if_pos uncovered])
  rw [if_neg unauthorised, if_neg zero, if_neg reserve, if_neg uncovered]
  cases treasury.isWithinBudget track amount blockHeight with
  | false => exact .inl rfl
  | true =>
      cases treasury.violatesReserve amount with
      | true => exact .inl rfl
      | false => exact .inr ⟨unauthorised, zero, reserve, UInt64.not_lt.mp uncovered, rfl, rfl, rfl⟩

theorem proposeMultiSigSpend_cases (amount : UInt64) (recipient : Bytes) (purpose : String)
    (initiator : Bytes) (blockHeight : UInt64) :
    treasury.proposeMultiSigSpend amount recipient purpose initiator blockHeight = (0, treasury) ∨
    treasury.isGuardian initiator = true ∧
      treasury.proposeMultiSigSpend amount recipient purpose initiator blockHeight =
        (treasury.nextSpendId,
          { treasury with
            multisigSpends := treasury.multisigSpends.insert treasury.nextSpendId
              (treasury.newSpend amount recipient purpose initiator blockHeight)
            nextSpendId := treasury.nextSpendId + 1 }) := by
  unfold proposeMultiSigSpend
  split
  · exact .inl rfl
  cases treasury.isGuardian initiator with
  | false => exact .inl rfl
  | true => exact .inr ⟨rfl, rfl⟩

theorem signMultiSigSpend_cases (spendId : UInt64) (guardian : Bytes) :
    treasury.signMultiSigSpend spendId guardian = (false, treasury) ∨
    ∃ spend, treasury.isGuardian guardian = true ∧ treasury.multisigSpends[spendId]? = some spend ∧
      spend.executed = false ∧
      treasury.signMultiSigSpend spendId guardian =
        (true,
          { treasury with
            multisigSpends := treasury.multisigSpends.insert spendId
              { spend with signers := spend.signers.insert guardian } }) := by
  unfold signMultiSigSpend
  cases treasury.isGuardian guardian with
  | false => exact .inl rfl
  | true =>
      cases treasury.multisigSpends[spendId]? with
      | none => exact .inl rfl
      | some spend =>
          cases pending : spend.executed with
          | true => exact .inl (by simp [pending])
          | false => exact .inr ⟨spend, rfl, rfl, pending, by simp [pending]⟩

theorem createBudgetPeriod_cases (startBlock endBlock : UInt64) (limits : Track → UInt64)
    (proposalId : UInt64) :
    treasury.createBudgetPeriod startBlock endBlock limits proposalId = (0, treasury) ∨
    treasury.createBudgetPeriod startBlock endBlock limits proposalId =
      (treasury.nextPeriodId,
        { treasury with
          budgetPeriods := treasury.budgetPeriods ++
            [⟨treasury.nextPeriodId, startBlock, endBlock, limits, fun _ => 0⟩]
          nextPeriodId := treasury.nextPeriodId + 1 }) := by
  unfold createBudgetPeriod
  split
  · exact .inl rfl
  split
  · exact .inl rfl
  exact .inr rfl

/-- An execution is refused, or pays a spend that has its signatures. -/
theorem executeMultiSigSpend_cases (spendId blockHeight : UInt64) :
    treasury.executeMultiSigSpend spendId blockHeight = (false, treasury) ∨
    ∃ spend, treasury.multisigSpends[spendId]? = some spend ∧ spend.executed = false ∧
      treasury.multisigRequired ≤ UInt32.ofNat spend.signers.size ∧
      spend.amount ≤ treasury.balances .emergency ∧
      treasury.executeMultiSigSpend spendId blockHeight =
        (true,
          { treasury.setBalance .emergency (treasury.balances .emergency - spend.amount) with
            multisigSpends := treasury.multisigSpends.insert spendId
              { spend with executed := true, executedAtBlock := blockHeight } }.recordTx false
            spend.amount spend.recipient .emergency 0 0 spend.purpose blockHeight) := by
  unfold executeMultiSigSpend hasSufficientSignatures
  cases treasury.multisigSpends[spendId]? with
  | none => exact .inl rfl
  | some spend =>
      cases pending : spend.executed with
      | true => exact .inl (by simp [pending])
      | false =>
          by_cases signed : treasury.multisigRequired ≤ UInt32.ofNat spend.signers.size
          · by_cases covered : spend.amount ≤ treasury.balances .emergency
            · refine .inr ⟨spend, rfl, pending, signed, covered, ?_⟩
              simp [pending, signed, UInt64.not_lt.mpr covered]
              rfl
            · exact .inl (by simp [pending, signed, UInt64.not_le.mp covered])
          · exact .inl (by simp [pending, signed])

theorem releaseMilestone_cases (grantId : UInt64) (milestoneIndex : UInt32)
    (proposalId blockHeight : UInt64) :
    treasury.releaseMilestone grantId milestoneIndex proposalId blockHeight = (false, treasury) ∨
    ∃ grant ms, proposalId ≠ 0 ∧ treasury.grants[grantId]? = some grant ∧ grant.revoked = false ∧
      grant.milestones[milestoneIndex.toNat]? = some ms ∧ ms.released = false ∧
      treasury.releaseMilestone grantId milestoneIndex proposalId blockHeight =
        (true,
          { treasury with
            grants := treasury.grants.insert grantId
              (grant.release milestoneIndex.toNat ms blockHeight) }.recordTx false ms.amount
            grant.recipient .grants proposalId grantId grant.purpose blockHeight) := by
  unfold releaseMilestone
  by_cases unauthorised : proposalId = 0
  · exact .inl (if_pos unauthorised)
  rw [if_neg unauthorised]
  cases treasury.grants[grantId]? with
  | none => exact .inl rfl
  | some grant =>
      cases live : grant.revoked with
      | true => exact .inl (by simp [live])
      | false =>
          cases listed : grant.milestones[milestoneIndex.toNat]? with
          | none => exact .inl (by simp [live, listed])
          | some ms =>
              cases unreleased : ms.released with
              | true => exact .inl (by simp [live, listed, unreleased])
              | false =>
                  refine .inr ⟨grant, ms, unauthorised, rfl, live, listed, unreleased, ?_⟩
                  simp [live, listed, unreleased]

/-- A revocation is refused without a proposal or a grant that is live, or gives back what the
grant has not released. -/
theorem revokeGrant_cases (grantId proposalId blockHeight : UInt64) :
    (proposalId ≠ 0 → ∀ grant, treasury.grants[grantId]? = some grant → grant.revoked = true) ∧
      treasury.revokeGrant grantId proposalId blockHeight = (false, treasury) ∨
    ∃ grant, proposalId ≠ 0 ∧ treasury.grants[grantId]? = some grant ∧ grant.revoked = false ∧
      treasury.revokeGrant grantId proposalId blockHeight =
        (true,
          { treasury.setBalance .grants (treasury.balances .grants + grant.refund) with
            grants := treasury.grants.insert grantId { grant with revoked := true } }.recordTx true
            grant.refund grant.recipient .grants proposalId grantId "grant revoked – refund"
            blockHeight) := by
  unfold revokeGrant
  by_cases unauthorised : proposalId = 0
  · exact .inl ⟨fun authorised => absurd unauthorised authorised, if_pos unauthorised⟩
  rw [if_neg unauthorised]
  cases treasury.grants[grantId]? with
  | none => exact .inl ⟨fun _ _ found => (nomatch found), rfl⟩
  | some grant =>
      cases live : grant.revoked with
      | true =>
          refine .inl ⟨fun _ other found => ?_, by simp [live]⟩
          cases found
          exact live
      | false =>
          refine .inr ⟨grant, unauthorised, rfl, live, ?_⟩
          simp [live]
          rfl

/-- A call that moves no money leaves the balances, the grants and the log as they are. -/
theorem quiet_frame {call : TreasuryCall} (quiet : call.quiet = true) :
    (treasury.apply call).balances = treasury.balances ∧
      (treasury.apply call).grants = treasury.grants ∧
      (treasury.apply call).transactions = treasury.transactions := by
  cases call with
  | addGuardian address =>
      rcases treasury.addGuardian_cases address with refused | ⟨-, done⟩
      · exact ⟨by rw [apply, refused], by rw [apply, refused], by rw [apply, refused]⟩
      · exact ⟨by rw [apply, done], by rw [apply, done], by rw [apply, done]⟩
  | removeGuardian address =>
      rcases treasury.removeGuardian_cases address with refused | done
      · exact ⟨by rw [apply, refused], by rw [apply, refused], by rw [apply, refused]⟩
      · exact ⟨by rw [apply, done], by rw [apply, done], by rw [apply, done]⟩
  | setMultiSigRequired | setReserveRatioBps => exact ⟨rfl, rfl, rfl⟩
  | proposeMultiSigSpend amount recipient purpose initiator blockHeight =>
      rcases treasury.proposeMultiSigSpend_cases amount recipient purpose initiator blockHeight with
        refused | ⟨-, done⟩
      · exact ⟨by rw [apply, refused], by rw [apply, refused], by rw [apply, refused]⟩
      · exact ⟨by rw [apply, done], by rw [apply, done], by rw [apply, done]⟩
  | signMultiSigSpend spendId guardian =>
      rcases treasury.signMultiSigSpend_cases spendId guardian with refused | ⟨spend, -, -, -, done⟩
      · exact ⟨by rw [apply, refused], by rw [apply, refused], by rw [apply, refused]⟩
      · exact ⟨by rw [apply, done], by rw [apply, done], by rw [apply, done]⟩
  | createBudgetPeriod startBlock endBlock limits proposalId =>
      rcases treasury.createBudgetPeriod_cases startBlock endBlock limits proposalId with
        refused | done
      · exact ⟨by rw [apply, refused], by rw [apply, refused], by rw [apply, refused]⟩
      · exact ⟨by rw [apply, done], by rw [apply, done], by rw [apply, done]⟩
  | deposit | spend | executeMultiSigSpend | createGrant | releaseMilestone | revokeGrant =>
      cases quiet

end Cases

/-! ## Accounts -/

/-- What a call leaves in the treasury and pays out is what was there and what it takes in. -/
def Balances (treasury : Treasury) (call : TreasuryCall) : Prop :=
  (treasury.apply call).held + (treasury.apply call).reserved + treasury.paidOut call =
    treasury.held + treasury.reserved + treasury.takenIn call

section Calls

variable (treasury : Treasury)

theorem deposit_balances {amount : UInt64} {sender : Bytes} {track : Track} {blockHeight : UInt64}
    (fits : treasury.held + amount.toNat < 2 ^ 64) :
    treasury.Balances (.deposit amount sender track blockHeight) := by
  by_cases zero : amount = 0
  · simp [Balances, apply, takenIn, paidOut, deposit, zero]
  · have set := treasury.held_setBalance track (treasury.balances track + amount)
    have below := treasury.balance_le_held track
    rw [toNat_add_of_fits (by omega)] at set
    have kept : (treasury.setBalance track (treasury.balances track + amount)).reserved =
        treasury.reserved := rfl
    simp only [Balances, apply, takenIn, paidOut, deposit, zero, if_false, if_true, recordTx_held,
      recordTx_reserved, kept]
    omega

theorem spend_balances {amount : UInt64} {recipient : Bytes} {proposalId : UInt64} {track : Track}
    {purpose : String} {blockHeight : UInt64} :
    treasury.Balances (.spend amount recipient proposalId track purpose blockHeight) := by
  simp only [Balances, apply, takenIn, paidOut]
  rcases treasury.spend_cases amount recipient proposalId track purpose blockHeight with
    refused | ⟨-, -, -, covered, -, -, done⟩
  · rw [refused]
    rfl
  · have set := treasury.held_setBalance track (treasury.balances track - amount)
    rw [toNat_sub_of_le covered] at set
    have below : amount.toNat ≤ (treasury.balances track).toNat := covered
    rw [done]
    change (treasury.setBalance track (treasury.balances track - amount)).held + treasury.reserved +
      amount.toNat = treasury.held + treasury.reserved + 0
    omega

theorem executeMultiSigSpend_balances {spendId blockHeight : UInt64} :
    treasury.Balances (.executeMultiSigSpend spendId blockHeight) := by
  simp only [Balances, apply, takenIn, paidOut]
  rcases treasury.executeMultiSigSpend_cases spendId blockHeight with
    refused | ⟨spend, found, -, -, covered, done⟩
  · rw [refused]
    rfl
  · have set := treasury.held_setBalance .emergency (treasury.balances .emergency - spend.amount)
    rw [toNat_sub_of_le covered] at set
    have below : spend.amount.toNat ≤ (treasury.balances .emergency).toNat := covered
    rw [done, found]
    change (treasury.setBalance .emergency (treasury.balances .emergency - spend.amount)).held +
      treasury.reserved + spend.amount.toNat = treasury.held + treasury.reserved + 0
    omega

/-- The call of `CreateGrant` that is not refused. -/
def GrantMade (treasury : Treasury) (proposalId : UInt64) (recipient : Bytes)
    (milestones : List (String × UInt64)) : Prop :=
  ¬(proposalId = 0 ∨ recipient.isEmpty ∨ milestones.isEmpty) ∧ milestoneTotal milestones ≠ 0 ∧
    milestoneTotal milestones ≤ treasury.balances .grants

instance (proposalId : UInt64) (recipient : Bytes) (milestones : List (String × UInt64)) :
    Decidable (treasury.GrantMade proposalId recipient milestones) :=
  inferInstanceAs (Decidable (_ ∧ _))

/-- The exact sum of the amounts of milestones. -/
def exactTotal (milestones : List (String × UInt64)) : Nat :=
  (milestones.map fun milestone => milestone.2.toNat).sum

theorem toNat_milestoneTotal (milestones : List (String × UInt64)) :
    (milestoneTotal milestones).toNat = exactTotal milestones % 2 ^ 64 := by
  have summed := toNat_foldl_wrapping (fun total (milestone : String × UInt64) => total + milestone.2)
    (fun milestone => milestone.2.toNat) (fun total milestone => UInt64.toNat_add total milestone.2) milestones 0
  simpa [milestoneTotal, exactTotal] using summed

/-- What is reserved under the next grant id, which a new grant takes over. -/
def reservedAtNext (treasury : Treasury) : Nat :=
  (treasury.grants[treasury.nextGrantId]?.map fun grant => grant.reserved).getD 0

theorem newGrant_reserved (proposalId : UInt64) (recipient : Bytes) (purpose : String)
    (milestones : List (String × UInt64)) (blockHeight : UInt64) :
    (treasury.newGrant proposalId recipient purpose milestones blockHeight).reserved =
      exactTotal milestones := by
  simp [newGrant, Grant.reserved, Grant.pending, exactTotal, Milestone.pending, Function.comp_def]

/-- A grant that is made is kept back in place of what was under its id. -/
theorem reserved_newGrant (proposalId : UInt64) (recipient : Bytes) (purpose : String)
    (milestones : List (String × UInt64)) (blockHeight : UInt64) :
    total (fun _ grant => Grant.reserved grant) (treasury.grants.insert treasury.nextGrantId
        (treasury.newGrant proposalId recipient purpose milestones blockHeight)) +
      treasury.reservedAtNext = treasury.reserved + exactTotal milestones := by
  have exchanged := total_insert_exchange (fun _ grant => Grant.reserved grant) treasury.grants
    treasury.nextGrantId (treasury.newGrant proposalId recipient purpose milestones blockHeight)
  rwa [newGrant_reserved] at exchanged

/-- A milestone that is released is no longer kept back. -/
theorem reserved_release {grantId : UInt64} {grant : Grant} {index : Nat} {ms : Milestone}
    (found : treasury.grants[grantId]? = some grant) (live : grant.revoked = false)
    (listed : grant.milestones[index]? = some ms) (unreleased : ms.released = false)
    (blockHeight : UInt64) :
    total (fun _ grant => Grant.reserved grant)
        (treasury.grants.insert grantId (grant.release index ms blockHeight)) + ms.amount.toNat =
      treasury.reserved := by
  have exchanged := total_insert_exchange (fun _ grant => Grant.reserved grant) treasury.grants
    grantId (grant.release index ms blockHeight)
  have moved := Grant.release_pending listed unreleased blockHeight
  have stillLive : (grant.release index ms blockHeight).revoked = false := live
  have before : grant.reserved = grant.pending := if_neg (by simp [live])
  have after : (grant.release index ms blockHeight).reserved =
      (grant.release index ms blockHeight).pending := if_neg (by simp [stillLive])
  simp only [found, Option.map_some, Option.getD_some, before, after] at exchanged
  change _ = total (fun _ grant => Grant.reserved grant) treasury.grants
  omega

/-- Nothing is kept back for a grant that is revoked. -/
theorem reserved_revoke {grantId : UInt64} {grant : Grant}
    (found : treasury.grants[grantId]? = some grant) :
    total (fun _ grant => Grant.reserved grant)
        (treasury.grants.insert grantId { grant with revoked := true }) + grant.reserved =
      treasury.reserved := by
  have exchanged := total_insert_exchange (fun _ grant => Grant.reserved grant) treasury.grants
    grantId { grant with revoked := true }
  have after : { grant with revoked := true : Grant }.reserved = 0 := if_pos rfl
  simp only [found, Option.map_some, Option.getD_some, after, Nat.add_zero] at exchanged
  exact exchanged

theorem createGrant_of_made {proposalId : UInt64} {recipient : Bytes} {purpose : String}
    {milestones : List (String × UInt64)} {blockHeight cliff duration : UInt64}
    (made : treasury.GrantMade proposalId recipient milestones) :
    treasury.createGrant proposalId recipient purpose milestones blockHeight cliff duration =
      let grant := treasury.newGrant proposalId recipient purpose milestones blockHeight
      (grant.grantId,
        { treasury.setBalance .grants (treasury.balances .grants - milestoneTotal milestones) with
          grants := treasury.grants.insert grant.grantId grant
          nextGrantId := treasury.nextGrantId + 1
          vestingRegistry := treasury.vestingRegistry.map fun registry =>
            registry.scheduleGrant grant blockHeight cliff duration }) := by
  obtain ⟨wellFormed, positive, covered⟩ := made
  simp only [createGrant, if_neg wellFormed, if_neg positive, if_neg (UInt64.not_lt.mpr covered)]
  rfl

theorem createGrant_of_refused {proposalId : UInt64} {recipient : Bytes} {purpose : String}
    {milestones : List (String × UInt64)} {blockHeight cliff duration : UInt64}
    (refused : ¬treasury.GrantMade proposalId recipient milestones) :
    treasury.createGrant proposalId recipient purpose milestones blockHeight cliff duration =
      (0, treasury) := by
  unfold createGrant
  split
  · rfl
  rename_i wellFormed
  dsimp only
  split
  · rfl
  rename_i positive
  split
  · rfl
  rename_i covered
  exact absurd ⟨wellFormed, positive, UInt64.not_lt.mp covered⟩ refused

/-- A grant that is made takes the wrapped sum of its milestones from the balance and
keeps back the exact one, so the two must be the same. -/
theorem createGrant_balances_iff {proposalId : UInt64} {recipient : Bytes} {purpose : String}
    {milestones : List (String × UInt64)} {blockHeight cliff duration : UInt64}
    (made : treasury.GrantMade proposalId recipient milestones) :
    treasury.Balances
        (.createGrant proposalId recipient purpose milestones blockHeight cliff duration) ↔
      exactTotal milestones = (milestoneTotal milestones).toNat + treasury.reservedAtNext := by
  have set := treasury.held_setBalance .grants (treasury.balances .grants - milestoneTotal milestones)
  have below := UInt64.le_iff_toNat_le.mp made.2.2
  rw [toNat_sub_of_le made.2.2] at set
  have exchanged := treasury.reserved_newGrant proposalId recipient purpose milestones blockHeight
  simp only [Balances, apply, takenIn, paidOut, createGrant_of_made treasury made]
  change (treasury.setBalance .grants (treasury.balances .grants - milestoneTotal milestones)).held +
    total (fun _ grant => Grant.reserved grant) (treasury.grants.insert treasury.nextGrantId
      (treasury.newGrant proposalId recipient purpose milestones blockHeight)) + 0 =
    treasury.held + treasury.reserved + 0 ↔ _
  constructor
  · intro same
    omega
  · intro same
    omega

theorem releaseMilestone_balances {grantId : UInt64} {milestoneIndex : UInt32}
    {proposalId blockHeight : UInt64} :
    treasury.Balances (.releaseMilestone grantId milestoneIndex proposalId blockHeight) := by
  simp only [Balances, apply, takenIn, paidOut]
  rcases treasury.releaseMilestone_cases grantId milestoneIndex proposalId blockHeight with
    refused | ⟨grant, ms, -, found, live, listed, unreleased, done⟩
  · rw [refused]
    rfl
  · have released := treasury.reserved_release found live listed unreleased blockHeight
    rw [done, found, Option.bind_some, listed]
    change treasury.held + total (fun _ grant => Grant.reserved grant) (treasury.grants.insert grantId
      (grant.release milestoneIndex.toNat ms blockHeight)) + ms.amount.toNat =
      treasury.held + treasury.reserved + 0
    omega

theorem revokeGrant_balances {grantId proposalId blockHeight : UInt64}
    (fits : treasury.held + treasury.reserved < 2 ^ 64) :
    treasury.Balances (.revokeGrant grantId proposalId blockHeight) := by
  simp only [Balances, apply, takenIn, paidOut]
  rcases treasury.revokeGrant_cases grantId proposalId blockHeight with
    ⟨-, refused⟩ | ⟨grant, -, found, live, done⟩
  · rw [refused]
  · have revoked := treasury.reserved_revoke found
    have below := treasury.balance_le_held .grants
    have refunded := Grant.toNat_refund_of_fits live (show grant.reserved < 2 ^ 64 by omega)
    have set := treasury.held_setBalance .grants (treasury.balances .grants + grant.refund)
    rw [toNat_add_of_fits (by omega), refunded] at set
    rw [done]
    change (treasury.setBalance .grants (treasury.balances .grants + grant.refund)).held +
      total (fun _ grant => Grant.reserved grant)
        (treasury.grants.insert grantId { grant with revoked := true }) + 0 =
      treasury.held + treasury.reserved + 0
    omega

/-- A call that moves no money. -/
theorem still_balances {call : TreasuryCall} (balances : (treasury.apply call).balances = treasury.balances)
    (grants : (treasury.apply call).grants = treasury.grants) (paid : treasury.paidOut call = 0)
    (taken : treasury.takenIn call = 0) : treasury.Balances call := by
  rw [Balances, paid, taken, held, reserved, balances, grants]
  rfl

theorem quiet_balances {call : TreasuryCall} (quiet : call.quiet = true) :
    treasury.Balances call := by
  obtain ⟨balances, grants, -⟩ := treasury.quiet_frame quiet
  apply treasury.still_balances balances grants
  · cases call <;> first | rfl | cases quiet
  · cases call <;> first | rfl | cases quiet

/-- A condition on the milestones of a grant that is made: their exact sum fits in 64
bits, and no grant that still keeps something back has the id. -/
def GrantFits (proposalId : UInt64) (recipient : Bytes) (milestones : List (String × UInt64)) : Prop :=
  treasury.GrantMade proposalId recipient milestones →
    exactTotal milestones < 2 ^ 64 ∧ treasury.reservedAtNext = 0

end Calls

/-- The calls whose accounts come out right. -/
def Orderly (treasury : Treasury) : TreasuryCall → Prop
  | .createGrant proposalId recipient _ milestones _ _ _ =>
      treasury.GrantFits proposalId recipient milestones
  | _ => True

theorem orderly_balances {treasury : Treasury} {call : TreasuryCall} (orderly : treasury.Orderly call)
    (fits : treasury.held + treasury.reserved + treasury.takenIn call < 2 ^ 64) :
    treasury.Balances call := by
  cases call with
  | deposit amount sender track blockHeight =>
      by_cases zero : amount = 0
      · apply treasury.still_balances <;> simp [apply, deposit, paidOut, takenIn, zero]
      · have taken : treasury.takenIn (.deposit amount sender track blockHeight) = amount.toNat := by
          simp [takenIn, deposit, zero]
        exact treasury.deposit_balances (by omega)
  | spend => exact treasury.spend_balances
  | executeMultiSigSpend => exact treasury.executeMultiSigSpend_balances
  | createGrant proposalId recipient purpose milestones blockHeight cliff duration =>
      by_cases made : treasury.GrantMade proposalId recipient milestones
      · obtain ⟨small, free⟩ := orderly made
        apply (treasury.createGrant_balances_iff made).mpr
        rw [free, toNat_milestoneTotal, Nat.mod_eq_of_lt small, Nat.add_zero]
      · apply treasury.still_balances
        · rw [apply, treasury.createGrant_of_refused made]
        · rw [apply, treasury.createGrant_of_refused made]
        · rfl
        · rfl
  | releaseMilestone => exact treasury.releaseMilestone_balances
  | revokeGrant => exact treasury.revokeGrant_balances (by omega)
  | addGuardian | removeGuardian | setMultiSigRequired | setReserveRatioBps | proposeMultiSigSpend
  | signMultiSigSpend | createBudgetPeriod =>
      exact treasury.quiet_balances rfl

end Treasury

/-- A treasury with what it took in and what it paid out since it was opened. -/
structure Ledger where
  treasury : Treasury
  deposited : Nat
  paid : Nat

namespace Ledger

/-- A new treasury, with a vesting registry or without. -/
def opened (multisigRequired : UInt32) (reserveRatioBps : UInt64)
    (registry : Option VestingRegistry) : Ledger where
  treasury := { Treasury.new multisigRequired reserveRatioBps with vestingRegistry := registry }
  deposited := 0
  paid := 0

def after (ledger : Ledger) (call : TreasuryCall) : Ledger where
  treasury := ledger.treasury.apply call
  deposited := ledger.deposited + ledger.treasury.takenIn call
  paid := ledger.paid + ledger.treasury.paidOut call

def Conserved (ledger : Ledger) : Prop :=
  ledger.treasury.held + ledger.treasury.reserved + ledger.paid = ledger.deposited

instance (ledger : Ledger) : Decidable ledger.Conserved := inferInstanceAs (Decidable (_ = _))

/-- A call that meets its condition in the state it is made in. -/
def OrderlyStep (ledger : Ledger) (call : TreasuryCall) (next : Ledger) : Prop :=
  ledger.treasury.Orderly call ∧ next = ledger.after call

theorem after_conserved {ledger : Ledger} {call : TreasuryCall}
    (orderly : ledger.treasury.Orderly call) (fits : (ledger.after call).deposited < 2 ^ 64)
    (conserved : ledger.Conserved) : (ledger.after call).Conserved := by
  unfold Conserved at conserved
  have small : ledger.treasury.held + ledger.treasury.reserved + ledger.treasury.takenIn call <
      2 ^ 64 := by
    change ledger.deposited + _ < _ at fits
    omega
  have balances := Treasury.orderly_balances orderly small
  unfold Treasury.Balances at balances
  change (ledger.treasury.apply call).held + (ledger.treasury.apply call).reserved +
    (ledger.paid + ledger.treasury.paidOut call) = ledger.deposited + ledger.treasury.takenIn call
  omega

theorem opened_conserved (multisigRequired : UInt32) (reserveRatioBps : UInt64)
    (registry : Option VestingRegistry) :
    (opened multisigRequired reserveRatioBps registry).Conserved := by
  have none_ : (opened multisigRequired reserveRatioBps registry).treasury.reserved = 0 :=
    total_empty _
  rw [Conserved, none_]
  rfl

/-- In a run of calls that meet their conditions, every unit deposited is in a track,
kept back for a grant, or paid out. -/
theorem orderly_run_conserved {multisigRequired : UInt32} {reserveRatioBps : UInt64}
    {registry : Option VestingRegistry} {calls : List TreasuryCall} {ledger : Ledger}
    (run : Run OrderlyStep (opened multisigRequired reserveRatioBps registry) calls ledger)
    (fits : ledger.deposited < 2 ^ 64) : ledger.Conserved := by
  revert fits
  apply run.invariant (motive := fun ledger => ledger.deposited < 2 ^ 64 → ledger.Conserved)
  · intro _
    exact opened_conserved multisigRequired reserveRatioBps registry
  · rintro ledger call _ ih ⟨orderly, rfl⟩ fits
    have earlier : ledger.deposited < 2 ^ 64 := by
      change ledger.deposited + _ < _ at fits
      omega
    exact after_conserved orderly fits (ih earlier)

/-- A deposit and a grant of two milestones that add up to ten on 64 bits. -/
def overflowing : List TreasuryCall :=
  [.deposit 100 [1] .grants 0,
   .createGrant 1 [2] "grant" [("first", 0x8000000000000000), ("second", 0x800000000000000a)] 0 0 0]

/-- The grant keeps back more than all that was deposited. -/
theorem run_not_conserved :
    ¬ ∀ (multisigRequired : UInt32) (reserveRatioBps : UInt64) (registry : Option VestingRegistry)
      (calls : List TreasuryCall),
      (calls.foldl after (opened multisigRequired reserveRatioBps registry)).deposited < 2 ^ 64 →
        (calls.foldl after (opened multisigRequired reserveRatioBps registry)).Conserved := by
  intro claim
  have conserved := claim 2 1000 none overflowing (by decide +kernel)
  revert conserved
  decide +kernel

/-- A deposit, a grant of two milestones, the release of one and the return of the other. -/
def grantRun : List TreasuryCall :=
  [.deposit 100 [1] .grants 0, .createGrant 1 [2] "grant" [("first", 4), ("second", 6)] 0 0 0,
   .releaseMilestone 1 0 1 5, .revokeGrant 1 1 6]

theorem orderly_run_conserved_grant :
    ∃ ledger, Run OrderlyStep (opened 2 1000 none) grantRun ledger ∧ ledger.paid = 4 ∧
      ledger.Conserved := by
  have deposited : Run OrderlyStep (opened 2 1000 none) _ _ :=
    Run.start.step (⟨trivial, rfl⟩ : OrderlyStep _ (.deposit 100 [1] .grants 0) _)
  have granted := deposited.step
    (⟨fun _ => ⟨by decide +kernel, by decide +kernel⟩, rfl⟩ : OrderlyStep _
      (.createGrant 1 [2] "grant" [("first", 4), ("second", 6)] 0 0 0) _)
  have released := granted.step (⟨trivial, rfl⟩ : OrderlyStep _ (.releaseMilestone 1 0 1 5) _)
  have revoked := released.step (⟨trivial, rfl⟩ : OrderlyStep _ (.revokeGrant 1 1 6) _)
  exact ⟨_, revoked, by decide +kernel, orderly_run_conserved revoked (by decide +kernel)⟩

end Ledger

end Parthenon.Governance
