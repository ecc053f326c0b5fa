import Parthenon.Governance.TreasuryLaws
import Parthenon.Governance.Emergency
import Parthenon.Library.Quorum

namespace Parthenon.Governance

open Library Std

/-! # Guardian quorums

The signatures on a spend or an action stay when their guardian is removed, and the
execution counts them all.
-/

/-- The addresses that signed. -/
def signerSet (signers : ExtTreeSet Bytes compare) : Finset Bytes := signers.toList.toFinset

theorem signerSet_insert (signers : ExtTreeSet Bytes compare) (guardian : Bytes) :
    signerSet (signers.insert guardian) = insert guardian (signerSet signers) := by
  ext address
  simp only [signerSet, List.mem_toFinset, ExtTreeSet.mem_toList, ExtTreeSet.mem_insert,
    Std.compare_eq_iff_eq, Finset.mem_insert]
  exact or_congr_left eq_comm

theorem signerSet_single (guardian : Bytes) :
    signerSet ((∅ : ExtTreeSet Bytes compare).insert guardian) = {guardian} := by
  rw [signerSet_insert]
  rfl

/-- The signatures of addresses that are no guardians any more are not needed. -/
def Sufficient (required : UInt32) (signers : ExtTreeSet Bytes compare) (guardians : Finset Bytes) :
    Prop :=
  required.toNat + (signerSet signers \ guardians).card ≤ (signerSet signers).card

instance (required : UInt32) (signers : ExtTreeSet Bytes compare) (guardians : Finset Bytes) :
    Decidable (Sufficient required signers guardians) :=
  inferInstanceAs (Decidable (_ ≤ _))

/-! ## The treasury -/

/-- A treasury with the minutes of its multi-signature spends. -/
structure WatchedTreasury where
  treasury : Treasury
  minutes : Minutes UInt64 Bytes

namespace WatchedTreasury

def opened (multisigRequired : UInt32) (reserveRatioBps : UInt64) : WatchedTreasury :=
  ⟨.new multisigRequired reserveRatioBps, .start⟩

variable (watched : WatchedTreasury)

def guardians : Finset Bytes := watched.treasury.guardians.toFinset

/-- The minutes after a call.  A spend was proposed when the next id has moved. -/
def minutesAfter : TreasuryCall → Minutes UInt64 Bytes
  | .proposeMultiSigSpend amount recipient purpose initiator blockHeight =>
      let proposed :=
        (watched.treasury.proposeMultiSigSpend amount recipient purpose initiator blockHeight).2
      if proposed.nextSpendId = watched.treasury.nextSpendId then watched.minutes
      else watched.minutes.propose watched.treasury.nextSpendId initiator
  | .signMultiSigSpend spendId guardian =>
      if (watched.treasury.signMultiSigSpend spendId guardian).1 then
        watched.minutes.sign spendId guardian
      else watched.minutes
  | .executeMultiSigSpend spendId blockHeight =>
      if (watched.treasury.executeMultiSigSpend spendId blockHeight).1 then
        watched.minutes.execute spendId watched.treasury.multisigRequired.toNat watched.guardians
      else watched.minutes
  | _ => watched.minutes

def after (call : TreasuryCall) : WatchedTreasury :=
  ⟨watched.treasury.apply call, watched.minutesAfter call⟩

/-- An execution that the treasury would pay has signatures enough without those of
addresses that are no guardians any more. -/
def Orderly : TreasuryCall → Prop
  | .executeMultiSigSpend spendId _ =>
      ∀ spend ∈ watched.treasury.multisigSpends[spendId]?, spend.executed = false →
        watched.treasury.hasSufficientSignatures spendId = true →
        spend.amount ≤ watched.treasury.balances .emergency →
        Sufficient watched.treasury.multisigRequired spend.signers watched.guardians
  | _ => True

instance : ∀ call, Decidable (watched.Orderly call)
  | .executeMultiSigSpend _ _ => inferInstanceAs (Decidable (∀ spend ∈ _, _))
  | .addGuardian _ | .removeGuardian _ | .setMultiSigRequired _ | .setReserveRatioBps _
  | .deposit .. | .spend .. | .proposeMultiSigSpend .. | .signMultiSigSpend ..
  | .createBudgetPeriod .. | .createGrant .. | .releaseMilestone .. | .revokeGrant .. =>
      inferInstanceAs (Decidable True)

def OrderlyStep (watched : WatchedTreasury) (call : TreasuryCall) (next : WatchedTreasury) : Prop :=
  watched.Orderly call ∧ next = watched.after call

end WatchedTreasury

/-- The petitions of a table after one entry is written. -/
theorem petitions_insert {γ : Type} (petition : γ → Petition Bytes)
    (entries : ExtTreeMap UInt64 γ compare) (id : UInt64) (entry : γ) :
    (fun other => (entries.insert id entry)[other]?.map petition) =
      Function.update (fun other => entries[other]?.map petition) id (some (petition entry)) := by
  funext other
  by_cases same : other = id
  · subst same
    rw [Function.update_self, ExtTreeMap.getElem?_insert_self, Option.map_some]
  · rw [Function.update_of_ne same, ExtTreeMap.getElem?_insert, if_neg (by simpa using Ne.symm same)]

theorem next_id_moves (id : UInt64) : id + 1 ≠ id := by
  intro same
  have numbers := congrArg UInt64.toNat same
  rw [UInt64.toNat_add] at numbers
  have small := id.toNat_lt
  simp only [UInt64.toNat_one] at numbers
  omega

/-- A spend as its signers and whether it was executed. -/
def MultiSigSpend.petition (spend : MultiSigSpend) : Petition Bytes :=
  ⟨signerSet spend.signers, spend.executed⟩

namespace WatchedTreasury

variable (watched : WatchedTreasury)

def gathering : Gathering UInt64 Bytes where
  members := watched.guardians
  petitions id := watched.treasury.multisigSpends[id]?.map MultiSigSpend.petition
  minutes := watched.minutes

variable {watched}

/-- A call that leaves the spends as they are may only change the guardians. -/
theorem step_of_spends_kept {call : TreasuryCall}
    (kept : (watched.treasury.apply call).multisigSpends = watched.treasury.multisigSpends)
    (quiet : watched.minutesAfter call = watched.minutes) :
    watched.gathering.Step (watched.after call).gathering := by
  have same : (watched.after call).gathering =
      { watched.gathering with members := (watched.after call).guardians } := by
    unfold gathering after
    rw [kept, quiet]
  rw [same]
  exact .change _

theorem propose_step (amount : UInt64) (recipient : Bytes) (purpose : String) (initiator : Bytes)
    (blockHeight : UInt64) :
    watched.gathering.Step
      (watched.after
        (.proposeMultiSigSpend amount recipient purpose initiator blockHeight)).gathering := by
  rcases watched.treasury.proposeMultiSigSpend_cases amount recipient purpose initiator
      blockHeight with refused | ⟨isGuardian, done⟩
  · apply step_of_spends_kept
    · rw [Treasury.apply, refused]
    · rw [minutesAfter, refused]
      exact if_pos rfl
  · have same : (watched.after
          (.proposeMultiSigSpend amount recipient purpose initiator blockHeight)).gathering =
        { watched.gathering with
          petitions := Function.update watched.gathering.petitions watched.treasury.nextSpendId
            (some ⟨{initiator}, false⟩)
          minutes := watched.minutes.propose watched.treasury.nextSpendId initiator } := by
      simp only [gathering, after, minutesAfter, Treasury.apply, done, next_id_moves, if_false,
        petitions_insert]
      rw [MultiSigSpend.petition, Treasury.newSpend, signerSet_single]
      rfl
    rw [same]
    exact .propose _ (List.mem_toFinset.mpr (by simpa [Treasury.isGuardian] using isGuardian))

theorem sign_step (spendId : UInt64) (guardian : Bytes) :
    watched.gathering.Step (watched.after (.signMultiSigSpend spendId guardian)).gathering := by
  rcases watched.treasury.signMultiSigSpend_cases spendId guardian with
    refused | ⟨spend, isGuardian, found, pending, done⟩
  · apply step_of_spends_kept
    · rw [Treasury.apply, refused]
    · rw [minutesAfter, refused]
      rfl
  · have same : (watched.after (.signMultiSigSpend spendId guardian)).gathering =
        { watched.gathering with
          petitions := Function.update watched.gathering.petitions spendId
            (some { spend.petition with signers := insert guardian spend.petition.signers })
          minutes := watched.minutes.sign spendId guardian } := by
      simp only [gathering, after, minutesAfter, Treasury.apply, done, if_true, petitions_insert]
      rw [MultiSigSpend.petition, signerSet_insert]
      rfl
    rw [same]
    exact .sign (List.mem_toFinset.mpr (by simpa [Treasury.isGuardian] using isGuardian))
      (Option.map_eq_some_iff.mpr ⟨spend, found, rfl⟩) pending

theorem execute_step {spendId blockHeight : UInt64}
    (orderly : watched.Orderly (.executeMultiSigSpend spendId blockHeight)) :
    watched.gathering.Step (watched.after (.executeMultiSigSpend spendId blockHeight)).gathering := by
  rcases watched.treasury.executeMultiSigSpend_cases spendId blockHeight with
    refused | ⟨spend, found, pending, signed, covered, done⟩
  · apply step_of_spends_kept
    · rw [Treasury.apply, refused]
    · rw [minutesAfter, refused]
      rfl
  · have sufficient := orderly spend found pending
      (by simpa [Treasury.hasSufficientSignatures, found] using signed) covered
    have same : (watched.after (.executeMultiSigSpend spendId blockHeight)).gathering =
        { watched.gathering with
          petitions := Function.update watched.gathering.petitions spendId
            (some { spend.petition with executed := true })
          minutes := watched.minutes.execute spendId watched.treasury.multisigRequired.toNat
            watched.guardians } := by
      simp only [gathering, after, minutesAfter, Treasury.apply, done, if_true, Treasury.recordTx,
        petitions_insert]
      rfl
    rw [same]
    exact .execute (Option.map_eq_some_iff.mpr ⟨spend, found, rfl⟩) pending sufficient

theorem orderly_step {call : TreasuryCall} (orderly : watched.Orderly call) :
    watched.gathering.Step (watched.after call).gathering := by
  cases call with
  | proposeMultiSigSpend amount recipient purpose initiator blockHeight =>
      exact propose_step amount recipient purpose initiator blockHeight
  | signMultiSigSpend spendId guardian => exact sign_step spendId guardian
  | executeMultiSigSpend spendId blockHeight => exact execute_step orderly
  | addGuardian address =>
      apply step_of_spends_kept _ rfl
      rcases watched.treasury.addGuardian_cases address with refused | ⟨-, done⟩
      · rw [Treasury.apply, refused]
      · rw [Treasury.apply, done]
  | removeGuardian address =>
      apply step_of_spends_kept _ rfl
      rcases watched.treasury.removeGuardian_cases address with refused | done
      · rw [Treasury.apply, refused]
      · rw [Treasury.apply, done]
  | setMultiSigRequired => exact step_of_spends_kept rfl rfl
  | setReserveRatioBps => exact step_of_spends_kept rfl rfl
  | deposit amount sender track blockHeight =>
      apply step_of_spends_kept _ rfl
      rcases watched.treasury.deposit_cases amount sender track blockHeight with
        ⟨-, refused⟩ | ⟨-, done⟩
      · rw [Treasury.apply, refused]
      · rw [Treasury.apply, done]
        rfl
  | spend amount recipient proposalId track purpose blockHeight =>
      apply step_of_spends_kept _ rfl
      rcases watched.treasury.spend_cases amount recipient proposalId track purpose blockHeight with
        refused | ⟨-, -, -, -, -, -, done⟩
      · rw [Treasury.apply, refused]
      · rw [Treasury.apply, done]
        rfl
  | createBudgetPeriod startBlock endBlock limits proposalId =>
      apply step_of_spends_kept _ rfl
      rcases watched.treasury.createBudgetPeriod_cases startBlock endBlock limits proposalId with
        refused | done
      · rw [Treasury.apply, refused]
      · rw [Treasury.apply, done]
  | createGrant proposalId recipient purpose milestones blockHeight cliff duration =>
      apply step_of_spends_kept _ rfl
      by_cases made : watched.treasury.GrantMade proposalId recipient milestones
      · rw [Treasury.apply, watched.treasury.createGrant_of_made made]
        rfl
      · rw [Treasury.apply, watched.treasury.createGrant_of_refused made]
  | releaseMilestone grantId milestoneIndex proposalId blockHeight =>
      apply step_of_spends_kept _ rfl
      rcases watched.treasury.releaseMilestone_cases grantId milestoneIndex proposalId blockHeight
        with refused | ⟨grant, ms, -, -, -, -, -, done⟩
      · rw [Treasury.apply, refused]
      · rw [Treasury.apply, done]
        rfl
  | revokeGrant grantId proposalId blockHeight =>
      apply step_of_spends_kept _ rfl
      rcases watched.treasury.revokeGrant_cases grantId proposalId blockHeight with
        ⟨-, refused⟩ | ⟨grant, -, -, -, done⟩
      · rw [Treasury.apply, refused]
      · rw [Treasury.apply, done]
        rfl

theorem opened_recorded (multisigRequired : UInt32) (reserveRatioBps : UInt64) :
    (opened multisigRequired reserveRatioBps).gathering.Recorded := by
  have same : (opened multisigRequired reserveRatioBps).gathering = .start ∅ := by
    simp [gathering, opened, guardians, Treasury.new, Gathering.start]
  rw [same]
  exact Gathering.start_recorded ∅

theorem orderly_run_recorded {multisigRequired : UInt32} {reserveRatioBps : UInt64}
    {calls : List TreasuryCall} {watched : WatchedTreasury}
    (run : Run OrderlyStep (opened multisigRequired reserveRatioBps) calls watched) :
    watched.gathering.Recorded := by
  apply run.invariant (motive := fun watched => watched.gathering.Recorded)
  · exact opened_recorded multisigRequired reserveRatioBps
  · rintro watched call _ recorded ⟨orderly, rfl⟩
    exact Gathering.step_recorded (orderly_step orderly) recorded

end WatchedTreasury

/-! ## The emergency council -/

/-- An emergency council with the minutes of its actions. -/
structure WatchedCouncil where
  council : EmergencyCouncil
  minutes : Minutes UInt64 Bytes

namespace WatchedCouncil

def opened (requiredSigs : UInt32) (actionTtlBlocks : UInt64) : WatchedCouncil :=
  ⟨.new requiredSigs actionTtlBlocks, .start⟩

variable (watched : WatchedCouncil)

def guardians : Finset Bytes := (watched.council.guardians.map Guardian.address).toFinset

/-- The minutes after a call.  An action was proposed when the next id has moved. -/
def minutesAfter : CouncilCall → Minutes UInt64 Bytes
  | .proposeAction type description initiator targetProposalId blockHeight =>
      let proposed :=
        (watched.council.proposeAction type description initiator targetProposalId blockHeight).2
      if proposed.nextActionId = watched.council.nextActionId then watched.minutes
      else watched.minutes.propose watched.council.nextActionId initiator
  | .signAction actionId guardian blockHeight =>
      if (watched.council.signAction actionId guardian blockHeight).1 then
        watched.minutes.sign actionId guardian
      else watched.minutes
  | .executeAction actionId blockHeight =>
      if (watched.council.executeAction actionId blockHeight).1 then
        watched.minutes.execute actionId watched.council.requiredSigs.toNat watched.guardians
      else watched.minutes
  | _ => watched.minutes

def after (call : CouncilCall) : WatchedCouncil :=
  ⟨watched.council.apply call, watched.minutesAfter call⟩

/-- An action that the council would execute has signatures enough without those of
addresses that are no guardians any more. -/
def Orderly : CouncilCall → Prop
  | .executeAction actionId blockHeight =>
      ∀ action ∈ watched.council.actions[actionId]?, action.executed = false →
        watched.council.isExpired actionId blockHeight = false →
        watched.council.hasSufficientSignatures actionId = true →
        Sufficient watched.council.requiredSigs action.signers watched.guardians
  | _ => True

instance : ∀ call, Decidable (watched.Orderly call)
  | .executeAction _ _ => inferInstanceAs (Decidable (∀ action ∈ _, _))
  | .addGuardian .. | .removeGuardian _ | .proposeAction .. | .signAction .. | .setRequiredSigs _
  | .setActionTtl _ => inferInstanceAs (Decidable True)

def OrderlyStep (watched : WatchedCouncil) (call : CouncilCall) (next : WatchedCouncil) : Prop :=
  watched.Orderly call ∧ next = watched.after call

end WatchedCouncil

/-- An action as its signers and whether it was executed. -/
def Action.petition (action : Action) : Petition Bytes := ⟨signerSet action.signers, action.executed⟩

namespace WatchedCouncil

variable (watched : WatchedCouncil)

def gathering : Gathering UInt64 Bytes where
  members := watched.guardians
  petitions id := watched.council.actions[id]?.map Action.petition
  minutes := watched.minutes

variable {watched}

theorem mem_guardians {address : Bytes} (isGuardian : watched.council.isGuardian address = true) :
    address ∈ watched.guardians := by
  obtain ⟨guardian, listed, same⟩ := List.any_eq_true.mp isGuardian
  exact List.mem_toFinset.mpr (List.mem_map.mpr ⟨guardian, listed, beq_iff_eq.mp same⟩)

/-- A call that leaves the actions as they are may only change the guardians. -/
theorem step_of_actions_kept {call : CouncilCall}
    (kept : (watched.council.apply call).actions = watched.council.actions)
    (quiet : watched.minutesAfter call = watched.minutes) :
    watched.gathering.Step (watched.after call).gathering := by
  have same : (watched.after call).gathering =
      { watched.gathering with members := (watched.after call).guardians } := by
    unfold gathering after
    rw [kept, quiet]
  rw [same]
  exact .change _

theorem propose_step (type : ActionType) (description : String) (initiator : Bytes)
    (targetProposalId blockHeight : UInt64) :
    watched.gathering.Step
      (watched.after
        (.proposeAction type description initiator targetProposalId blockHeight)).gathering := by
  rcases watched.council.proposeAction_cases type description initiator targetProposalId
      blockHeight with refused | ⟨isGuardian, done⟩
  · apply step_of_actions_kept
    · rw [EmergencyCouncil.apply, refused]
    · rw [minutesAfter, refused]
      exact if_pos rfl
  · have same : (watched.after
          (.proposeAction type description initiator targetProposalId blockHeight)).gathering =
        { watched.gathering with
          petitions := Function.update watched.gathering.petitions watched.council.nextActionId
            (some ⟨{initiator}, false⟩)
          minutes := watched.minutes.propose watched.council.nextActionId initiator } := by
      simp only [gathering, after, minutesAfter, EmergencyCouncil.apply, done, next_id_moves,
        if_false, petitions_insert]
      rw [Action.petition, EmergencyCouncil.newAction, signerSet_single]
      rfl
    rw [same]
    exact .propose _ (mem_guardians isGuardian)

theorem sign_step (actionId : UInt64) (guardian : Bytes) (blockHeight : UInt64) :
    watched.gathering.Step (watched.after (.signAction actionId guardian blockHeight)).gathering := by
  rcases watched.council.signAction_cases actionId guardian blockHeight with
    refused | ⟨action, isGuardian, found, pending, done⟩
  · apply step_of_actions_kept
    · rw [EmergencyCouncil.apply, refused]
    · rw [minutesAfter, refused]
      rfl
  · have same : (watched.after (.signAction actionId guardian blockHeight)).gathering =
        { watched.gathering with
          petitions := Function.update watched.gathering.petitions actionId
            (some { action.petition with signers := insert guardian action.petition.signers })
          minutes := watched.minutes.sign actionId guardian } := by
      simp only [gathering, after, minutesAfter, EmergencyCouncil.apply, done, if_true,
        petitions_insert]
      rw [Action.petition, signerSet_insert]
      rfl
    rw [same]
    exact .sign (mem_guardians isGuardian) (Option.map_eq_some_iff.mpr ⟨action, found, rfl⟩) pending

theorem execute_step {actionId blockHeight : UInt64}
    (orderly : watched.Orderly (.executeAction actionId blockHeight)) :
    watched.gathering.Step (watched.after (.executeAction actionId blockHeight)).gathering := by
  rcases watched.council.executeAction_cases actionId blockHeight with
    refused | ⟨action, found, pending, live, signed, done⟩
  · apply step_of_actions_kept
    · rw [EmergencyCouncil.apply, refused]
    · rw [minutesAfter, refused]
      rfl
  · have sufficient := orderly action found pending live signed
    have same : (watched.after (.executeAction actionId blockHeight)).gathering =
        { watched.gathering with
          petitions := Function.update watched.gathering.petitions actionId
            (some { action.petition with executed := true })
          minutes := watched.minutes.execute actionId watched.council.requiredSigs.toNat
            watched.guardians } := by
      simp only [gathering, after, minutesAfter, EmergencyCouncil.apply, done, if_true,
        petitions_insert]
      rfl
    rw [same]
    exact .execute (Option.map_eq_some_iff.mpr ⟨action, found, rfl⟩) pending sufficient

theorem orderly_step {call : CouncilCall} (orderly : watched.Orderly call) :
    watched.gathering.Step (watched.after call).gathering := by
  cases call with
  | proposeAction type description initiator targetProposalId blockHeight =>
      exact propose_step type description initiator targetProposalId blockHeight
  | signAction actionId guardian blockHeight => exact sign_step actionId guardian blockHeight
  | executeAction actionId blockHeight => exact execute_step orderly
  | addGuardian address role blockHeight =>
      apply step_of_actions_kept _ rfl
      simp only [EmergencyCouncil.apply, EmergencyCouncil.addGuardian]
      split
      · rfl
      split
      · rfl
      rfl
  | removeGuardian address =>
      apply step_of_actions_kept _ rfl
      simp only [EmergencyCouncil.apply, EmergencyCouncil.removeGuardian]
      split
      · rfl
      rfl
  | setRequiredSigs => exact step_of_actions_kept rfl rfl
  | setActionTtl => exact step_of_actions_kept rfl rfl

theorem opened_recorded (requiredSigs : UInt32) (actionTtlBlocks : UInt64) :
    (opened requiredSigs actionTtlBlocks).gathering.Recorded := by
  have same : (opened requiredSigs actionTtlBlocks).gathering = .start ∅ := by
    simp [gathering, opened, guardians, EmergencyCouncil.new, Gathering.start]
  rw [same]
  exact Gathering.start_recorded ∅

theorem orderly_run_recorded {requiredSigs : UInt32} {actionTtlBlocks : UInt64}
    {calls : List CouncilCall} {watched : WatchedCouncil}
    (run : Run OrderlyStep (opened requiredSigs actionTtlBlocks) calls watched) :
    watched.gathering.Recorded := by
  apply run.invariant (motive := fun watched => watched.gathering.Recorded)
  · exact opened_recorded requiredSigs actionTtlBlocks
  · rintro watched call _ recorded ⟨orderly, rfl⟩
    exact Gathering.step_recorded (orderly_step orderly) recorded

end WatchedCouncil

/-! ## Quorums -/

/-- The only guardian of a treasury proposes a spend and is removed before it is paid. -/
def removedSigner : List TreasuryCall :=
  [.deposit 10 [9] .emergency 0, .addGuardian [1], .proposeMultiSigSpend 5 [2] "spend" [1] 1,
   .removeGuardian [1], .executeMultiSigSpend 1 2]

/-- The only guardian of a council proposes an action and is removed before it is executed. -/
def removedCouncilSigner : List CouncilCall :=
  [.addGuardian [1] "security" 0, .proposeAction .pauseGovernance "pause" [1] 0 1,
   .removeGuardian [1], .executeAction 1 2]

/-- Two guardians sign, one is removed, a third signs, and the execution has a quorum of two. -/
def replacedSigner : List TreasuryCall :=
  [.deposit 10 [9] .emergency 0, .addGuardian [1], .addGuardian [2], .addGuardian [3],
   .proposeMultiSigSpend 5 [4] "spend" [1] 1, .signMultiSigSpend 1 [2], .removeGuardian [1],
   .signMultiSigSpend 1 [3], .executeMultiSigSpend 1 2]

def replacedCouncilSigner : List CouncilCall :=
  [.addGuardian [1] "security" 0, .addGuardian [2] "security" 0, .addGuardian [3] "community" 0,
   .proposeAction .pauseGovernance "pause" [1] 0 1, .signAction 1 [2] 1, .removeGuardian [1],
   .signAction 1 [3] 2, .executeAction 1 2]

end Parthenon.Governance
