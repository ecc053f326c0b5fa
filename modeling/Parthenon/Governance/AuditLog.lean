import Parthenon.Governance.TreasuryLaws
import Mathlib.Algebra.Order.Group.Int
import Mathlib.Order.Basic

namespace Parthenon.Governance

open Library Std

/-! # The audit log against the balances

What a revoked grant gives back is recorded as a deposit, though it was never recorded as
taken out: a grant that is made leaves no entry.
-/

/-- What a log has for a track, in exact arithmetic. -/
def recorded (isDeposit : Bool) (track : Track) (log : List TxRecord) : Int :=
  ((log.filter fun tx => tx.isDeposit == isDeposit && tx.track == track).map fun tx =>
    (tx.amount.toNat : Int)).sum

/-- The part of an amount that belongs to a track. -/
def onTrack (mine : Track) (amount : Int) (track : Track) : Int :=
  if mine = track then amount else 0

theorem onTrack_zero (mine : Track) : onTrack mine 0 = 0 := by
  funext track
  exact ite_self 0

theorem onTrack_add (mine : Track) (first second : Int) :
    onTrack mine (first + second) = onTrack mine first + onTrack mine second := by
  funext track
  by_cases same : mine = track
  · simp [onTrack, same]
  · simp [onTrack, same]

theorem onTrack_eq_zero_iff {mine : Track} {amount : Int} :
    onTrack mine amount = 0 ↔ amount = 0 := by
  constructor
  · intro none_
    have here := congrFun none_ mine
    rwa [onTrack, if_pos rfl] at here
  · rintro rfl
    exact onTrack_zero mine

theorem recorded_append (isDeposit : Bool) (track : Track) (log : List TxRecord) (tx : TxRecord) :
    recorded isDeposit track (log ++ [tx]) =
      recorded isDeposit track log +
        if tx.isDeposit = isDeposit then onTrack tx.track tx.amount.toNat track else 0 := by
  unfold recorded onTrack
  rw [List.filter_append, List.map_append, List.sum_append]
  congr 1
  by_cases kind : tx.isDeposit = isDeposit
  · by_cases mine : tx.track = track
    · simp [kind, mine]
    · simp [mine]
  · simp [kind]

namespace Treasury

variable (treasury : Treasury)

/-- What the log of a track has beyond its balance and what is kept back.  The milestones
that are still to be released, of grants that are not revoked, are all on one track. -/
def excess (track : Track) : Int :=
  recorded true track treasury.transactions - recorded false track treasury.transactions -
    ((treasury.balances track).toNat + onTrack .grants treasury.reserved track)

/-- The log of each track adds up to its balance, with the unreleased milestones of grants
that are not revoked. -/
def Replays : Prop :=
  ∀ track,
    recorded true track treasury.transactions - recorded false track treasury.transactions =
      (treasury.balances track).toNat + onTrack .grants treasury.reserved track

theorem replays_iff : treasury.Replays ↔ treasury.excess = 0 := by
  rw [funext_iff]
  exact forall_congr' fun track => sub_eq_zero.symm

theorem recordTx_excess (isDeposit : Bool) (amount : UInt64) (address : Bytes) (track : Track)
    (proposalId grantId : UInt64) (purpose : String) (blockHeight : UInt64) :
    (treasury.recordTx isDeposit amount address track proposalId grantId purpose blockHeight).excess =
      treasury.excess +
        onTrack track (if isDeposit then (amount.toNat : Int) else -amount.toNat) := by
  funext other
  simp only [excess, recordTx_reserved, Pi.add_apply]
  simp only [recordTx, recorded_append]
  unfold onTrack
  cases isDeposit with
  | true =>
      simp only [if_true, Bool.true_eq_false, if_false]
      omega
  | false =>
      simp only [Bool.false_eq_true, if_false, if_true]
      split <;> omega

theorem setBalance_excess (track : Track) (amount : UInt64) :
    (treasury.setBalance track amount).excess =
      treasury.excess + onTrack track ((treasury.balances track).toNat - amount.toNat) := by
  funext other
  have kept : (treasury.setBalance track amount).reserved = treasury.reserved := rfl
  simp only [excess, kept, Pi.add_apply]
  simp only [setBalance, Function.update_apply]
  by_cases same : other = track
  · subst same
    rw [if_pos rfl, onTrack, onTrack, if_pos rfl]
    omega
  · rw [if_neg same, onTrack, onTrack, if_neg (Ne.symm same)]
    omega

theorem setGrants_excess (grants : ExtTreeMap UInt64 Grant compare) :
    { treasury with grants }.excess =
      treasury.excess +
        onTrack .grants (treasury.reserved - total (fun _ grant => grant.reserved) grants) := by
  funext other
  have changed : { treasury with grants }.reserved = total (fun _ grant => grant.reserved) grants :=
    rfl
  simp only [excess, changed, Pi.add_apply]
  unfold onTrack
  split <;> omega

/-! ## What a call adds -/

/-- The sums of a call fit 64 bits. -/
def SumsFit : TreasuryCall → Prop
  | .deposit amount _ track _ => (treasury.balances track).toNat + amount.toNat < 2 ^ 64
  | .createGrant proposalId recipient _ milestones _ _ _ =>
      treasury.GrantMade proposalId recipient milestones → exactTotal milestones < 2 ^ 64
  | .revokeGrant grantId _ _ =>
      ∀ grant ∈ treasury.grants[grantId]?,
        (treasury.balances .grants).toNat + grant.reserved < 2 ^ 64
  | _ => True

/-- What a call enters that was never taken out: the refund of a grant.  A grant that takes
over the id of another one, after all ids were used, loses what that one kept back. -/
def enteredTwice : TreasuryCall → Nat
  | .createGrant proposalId recipient _ milestones _ _ _ =>
      if treasury.GrantMade proposalId recipient milestones then treasury.reservedAtNext else 0
  | .revokeGrant grantId proposalId _ =>
      if proposalId = 0 then 0 else (treasury.grants[grantId]?.map Grant.reserved).getD 0
  | _ => 0

variable {treasury}

theorem deposit_excess {amount : UInt64} {sender : Bytes} {track : Track} {blockHeight : UInt64}
    (fits : (treasury.balances track).toNat + amount.toNat < 2 ^ 64) :
    (treasury.deposit amount sender track blockHeight).2.excess = treasury.excess := by
  rcases treasury.deposit_cases amount sender track blockHeight with ⟨-, refused⟩ | ⟨-, done⟩
  · rw [refused]
  · have cancels : ((treasury.balances track).toNat : Int) -
        (treasury.balances track + amount).toNat + amount.toNat = 0 := by
      rw [toNat_add_of_fits fits]
      omega
    rw [done, recordTx_excess, setBalance_excess, if_pos rfl, add_assoc, ← onTrack_add, cancels,
      onTrack_zero, add_zero]

/-- A payment from a balance leaves an entry of the same amount. -/
theorem paid_excess {track : Track} {amount : UInt64} (covered : amount ≤ treasury.balances track)
    (address : Bytes) (proposalId : UInt64) (purpose : String) (blockHeight : UInt64) :
    ((treasury.setBalance track (treasury.balances track - amount)).recordTx false amount address
      track proposalId 0 purpose blockHeight).excess = treasury.excess := by
  have le := UInt64.le_iff_toNat_le.mp covered
  have cancels : ((treasury.balances track).toNat : Int) -
      (treasury.balances track - amount).toNat + -amount.toNat = 0 := by
    rw [toNat_sub_of_le covered]
    omega
  rw [recordTx_excess, setBalance_excess, if_neg Bool.false_ne_true, add_assoc, ← onTrack_add,
    cancels, onTrack_zero, add_zero]

theorem spend_excess {amount : UInt64} {recipient : Bytes} {proposalId : UInt64} {track : Track}
    {purpose : String} {blockHeight : UInt64} :
    (treasury.spend amount recipient proposalId track purpose blockHeight).2.excess =
      treasury.excess := by
  rcases treasury.spend_cases amount recipient proposalId track purpose blockHeight with
    refused | ⟨-, -, -, covered, -, -, done⟩
  · rw [refused]
  · rw [done]
    exact paid_excess covered recipient proposalId purpose blockHeight

theorem executeMultiSigSpend_excess {spendId blockHeight : UInt64} :
    (treasury.executeMultiSigSpend spendId blockHeight).2.excess = treasury.excess := by
  rcases treasury.executeMultiSigSpend_cases spendId blockHeight with
    refused | ⟨spend, -, -, -, covered, done⟩
  · rw [refused]
  · rw [done]
    exact paid_excess covered spend.recipient 0 spend.purpose blockHeight

theorem createGrant_excess {proposalId : UInt64} {recipient : Bytes} {purpose : String}
    {milestones : List (String × UInt64)} {blockHeight cliff duration : UInt64}
    (fits : treasury.GrantMade proposalId recipient milestones → exactTotal milestones < 2 ^ 64) :
    (treasury.createGrant proposalId recipient purpose milestones blockHeight cliff
      duration).2.excess =
      treasury.excess +
        onTrack .grants (if treasury.GrantMade proposalId recipient milestones then
          treasury.reservedAtNext else 0 : Nat) := by
  by_cases made : treasury.GrantMade proposalId recipient milestones
  · have le := UInt64.le_iff_toNat_le.mp made.2.2
    have taken := treasury.reserved_newGrant proposalId recipient purpose milestones blockHeight
    have total_ := toNat_milestoneTotal milestones
    rw [Nat.mod_eq_of_lt (fits made)] at total_
    rw [if_pos made, treasury.createGrant_of_made made]
    change { treasury.setBalance .grants (treasury.balances .grants - milestoneTotal milestones) with
      grants := treasury.grants.insert treasury.nextGrantId
        (treasury.newGrant proposalId recipient purpose milestones blockHeight) }.excess = _
    rw [setGrants_excess, setBalance_excess, add_assoc, ← onTrack_add]
    congr 2
    have kept : (treasury.setBalance .grants
        (treasury.balances .grants - milestoneTotal milestones)).reserved = treasury.reserved := rfl
    rw [kept, toNat_sub_of_le made.2.2]
    omega
  · rw [if_neg made, treasury.createGrant_of_refused made]
    exact (add_zero _).symm.trans (congrArg _ (onTrack_zero _).symm)

theorem releaseMilestone_excess {grantId : UInt64} {milestoneIndex : UInt32}
    {proposalId blockHeight : UInt64} :
    (treasury.releaseMilestone grantId milestoneIndex proposalId blockHeight).2.excess =
      treasury.excess := by
  rcases treasury.releaseMilestone_cases grantId milestoneIndex proposalId blockHeight with
    refused | ⟨grant, ms, -, found, live, listed, unreleased, done⟩
  · rw [refused]
  · have released := treasury.reserved_release found live listed unreleased blockHeight
    have cancels : (treasury.reserved : Int) - total (fun _ grant => Grant.reserved grant)
        (treasury.grants.insert grantId (grant.release milestoneIndex.toNat ms blockHeight)) +
          -ms.amount.toNat = 0 := by
      omega
    rw [done, recordTx_excess, setGrants_excess, if_neg Bool.false_ne_true, add_assoc,
      ← onTrack_add, cancels, onTrack_zero, add_zero]

theorem revokeGrant_excess {grantId proposalId blockHeight : UInt64}
    (fits : ∀ grant ∈ treasury.grants[grantId]?,
      (treasury.balances .grants).toNat + grant.reserved < 2 ^ 64) :
    (treasury.revokeGrant grantId proposalId blockHeight).2.excess =
      treasury.excess +
        onTrack .grants (if proposalId = 0 then 0 else
          (treasury.grants[grantId]?.map Grant.reserved).getD 0 : Nat) := by
  rcases treasury.revokeGrant_cases grantId proposalId blockHeight with
    ⟨reason, refused⟩ | ⟨grant, authorised, found, live, done⟩
  · have nothing : (if proposalId = 0 then 0 else
        (treasury.grants[grantId]?.map Grant.reserved).getD 0) = 0 := by
      by_cases unauthorised : proposalId = 0
      · exact if_pos unauthorised
      rw [if_neg unauthorised]
      cases found : treasury.grants[grantId]? with
      | none => rfl
      | some grant => exact if_pos (reason unauthorised grant found)
    rw [refused, nothing]
    exact (add_zero _).symm.trans (congrArg _ (onTrack_zero _).symm)
  · have below := fits grant found
    have revoked := treasury.reserved_revoke found
    have refunded := Grant.toNat_refund_of_fits live (show grant.reserved < 2 ^ 64 by omega)
    rw [if_neg authorised, found, done, recordTx_excess, setGrants_excess, setBalance_excess,
      if_pos rfl, add_assoc, add_assoc, ← onTrack_add, ← onTrack_add]
    congr 2
    have kept : (treasury.setBalance .grants
        (treasury.balances .grants + grant.refund)).reserved = treasury.reserved := rfl
    rw [kept, toNat_add_of_fits (by omega), refunded, Option.map_some, Option.getD_some]
    omega

theorem quiet_excess {call : TreasuryCall} (quiet : call.quiet = true) :
    (treasury.apply call).excess = treasury.excess := by
  obtain ⟨balances, grants, transactions⟩ := treasury.quiet_frame quiet
  funext track
  simp only [excess, reserved, balances, grants, transactions]

/-- What a call enters twice is what the log then has more beyond the balances. -/
theorem apply_excess {call : TreasuryCall} (fits : treasury.SumsFit call) :
    (treasury.apply call).excess = treasury.excess + onTrack .grants (treasury.enteredTwice call) := by
  have still : ∀ {after : Treasury}, after.excess = treasury.excess →
      after.excess = treasury.excess + onTrack .grants (0 : Nat) := by
    intro after same
    rw [same]
    exact (add_zero _).symm.trans (congrArg _ (onTrack_zero _).symm)
  cases call with
  | deposit => exact still (deposit_excess fits)
  | spend => exact still spend_excess
  | executeMultiSigSpend => exact still executeMultiSigSpend_excess
  | createGrant => exact createGrant_excess fits
  | releaseMilestone => exact still releaseMilestone_excess
  | revokeGrant => exact revokeGrant_excess fits
  | addGuardian | removeGuardian | setMultiSigRequired | setReserveRatioBps | proposeMultiSigSpend
  | signMultiSigSpend | createBudgetPeriod =>
      exact still (quiet_excess rfl)

/-! ## Runs -/

/-- The calls that the log has in full: a grant is revoked when nothing of it is left to
release, and no grant that still keeps something back loses its id to a new one. -/
def LeavesNothing (treasury : Treasury) : TreasuryCall → Prop
  | .createGrant proposalId recipient _ milestones _ _ _ =>
      treasury.GrantMade proposalId recipient milestones → treasury.reservedAtNext = 0
  | .revokeGrant grantId proposalId _ =>
      proposalId ≠ 0 → ∀ grant ∈ treasury.grants[grantId]?, grant.reserved = 0
  | _ => True

instance : ∀ call, Decidable (treasury.SumsFit call)
  | .deposit .. => inferInstanceAs (Decidable (_ < _))
  | .createGrant .. => inferInstanceAs (Decidable (_ → _))
  | .revokeGrant .. => inferInstanceAs (Decidable (∀ grant ∈ _, _ < _))
  | .addGuardian .. | .removeGuardian .. | .setMultiSigRequired .. | .setReserveRatioBps ..
  | .spend .. | .proposeMultiSigSpend .. | .signMultiSigSpend .. | .executeMultiSigSpend ..
  | .createBudgetPeriod .. | .releaseMilestone .. => inferInstanceAs (Decidable True)

instance : ∀ call, Decidable (treasury.LeavesNothing call)
  | .createGrant .. => inferInstanceAs (Decidable (_ → _))
  | .revokeGrant .. => inferInstanceAs (Decidable (_ → ∀ grant ∈ _, _ = _))
  | .deposit .. | .addGuardian .. | .removeGuardian .. | .setMultiSigRequired ..
  | .setReserveRatioBps .. | .spend .. | .proposeMultiSigSpend .. | .signMultiSigSpend ..
  | .executeMultiSigSpend .. | .createBudgetPeriod .. | .releaseMilestone .. =>
      inferInstanceAs (Decidable True)

theorem enteredTwice_eq_zero_iff {call : TreasuryCall} :
    treasury.enteredTwice call = 0 ↔ treasury.LeavesNothing call := by
  cases call with
  | createGrant proposalId recipient purpose milestones blockHeight cliff duration =>
      unfold enteredTwice LeavesNothing
      by_cases made : treasury.GrantMade proposalId recipient milestones
      · simp only [made, if_true, forall_const]
      · simp only [made, if_false, false_implies]
  | revokeGrant grantId proposalId blockHeight =>
      unfold enteredTwice LeavesNothing
      by_cases unauthorised : proposalId = 0
      · simp [unauthorised]
      · cases found : treasury.grants[grantId]? with
        | none => simp [found]
        | some grant => simp [found, unauthorised]
  | deposit | spend | executeMultiSigSpend | releaseMilestone | addGuardian | removeGuardian
  | setMultiSigRequired | setReserveRatioBps | proposeMultiSigSpend | signMultiSigSpend
  | createBudgetPeriod => exact iff_of_true rfl trivial

theorem apply_excess_eq_iff {call : TreasuryCall} (fits : treasury.SumsFit call) :
    (treasury.apply call).excess = treasury.excess ↔ treasury.LeavesNothing call := by
  rw [apply_excess fits, add_eq_left, onTrack_eq_zero_iff, Int.natCast_eq_zero,
    enteredTwice_eq_zero_iff]

theorem opened_excess (multisigRequired : UInt32) (reserveRatioBps : UInt64)
    (registry : Option VestingRegistry) :
    (Ledger.opened multisigRequired reserveRatioBps registry).treasury.excess = 0 := by
  have none_ : (Ledger.opened multisigRequired reserveRatioBps registry).treasury.reserved = 0 :=
    total_empty _
  funext track
  unfold excess
  rw [none_, Int.natCast_zero, onTrack_zero]
  rfl

/-- In a run whose sums fit, the log of each track replays to its balance exactly when no
grant with something left to release was revoked or lost its id. -/
theorem log_replays_iff (multisigRequired : UInt32) (reserveRatioBps : UInt64)
    (registry : Option VestingRegistry) {calls : List TreasuryCall}
    (fit : Obeys SumsFit apply (Ledger.opened multisigRequired reserveRatioBps registry).treasury
      calls) :
    (calls.foldl apply (Ledger.opened multisigRequired reserveRatioBps registry).treasury).Replays ↔
      Obeys LeavesNothing apply
        (Ledger.opened multisigRequired reserveRatioBps registry).treasury calls := by
  have grows : ∀ (treasury : Treasury) call, treasury.SumsFit call →
      treasury.excess ≤ (treasury.apply call).excess := by
    intro treasury call fits track
    rw [apply_excess fits]
    refine le_add_of_nonneg_right ?_
    unfold onTrack
    split
    · exact Int.natCast_nonneg _
    · exact Int.le_refl 0
  rw [replays_iff, ← opened_excess multisigRequired reserveRatioBps registry]
  exact (obeys_iff_kept excess grows (fun _ _ fits => apply_excess_eq_iff fits) fit).symm

/-- A grant of two milestones that are both released before it is revoked. -/
def spentGrant : List TreasuryCall :=
  [.deposit 100 [1] .grants 0, .createGrant 1 [2] "grant" [("first", 4), ("second", 6)] 0 0 0,
   .releaseMilestone 1 0 1 5, .spend 20 [3] 1 .grants "spend" 5, .releaseMilestone 1 1 1 6,
   .revokeGrant 1 1 7]

theorem log_replays_spentGrant :
    (spentGrant.foldl apply (Ledger.opened 2 0 none).treasury).Replays :=
  (log_replays_iff 2 0 none (by decide +kernel)).mpr (by decide +kernel)

/-- One of two milestones is released.  The other one comes back as a second deposit. -/
theorem refund_entered_twice :
    ¬ ∀ (multisigRequired : UInt32) (reserveRatioBps : UInt64) (registry : Option VestingRegistry)
      (calls : List TreasuryCall),
      Obeys SumsFit apply (Ledger.opened multisigRequired reserveRatioBps registry).treasury calls →
        (calls.foldl apply
          (Ledger.opened multisigRequired reserveRatioBps registry).treasury).Replays := by
  intro claim
  have replays := claim 2 1000 none Ledger.grantRun (by decide +kernel) .grants
  revert replays
  decide +kernel

end Treasury

end Parthenon.Governance
