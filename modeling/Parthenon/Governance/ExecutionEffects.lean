import Parthenon.Governance.ParamHistory
import Parthenon.Governance.TreasuryLaws
import Parthenon.Governance.VotingLaws

namespace Parthenon.Governance

open Library Std

/-! # Effects of an execution

An execution marks the proposal as executed whatever the subsystem answers.  Its effect
happened exactly when the data are well formed and the subsystem accepts what they encode.
-/

namespace Proposal

/-! ## What the data encode -/

def spendingAmount (proposal : Proposal) : UInt64 := VotingSystem.readLE64 proposal.executionData

def spendingRecipient (proposal : Proposal) : Bytes :=
  (proposal.executionData.drop 9).take (proposal.executionData.getD 8 0).toNat

def changedKey (proposal : Proposal) : Bytes :=
  (proposal.executionData.drop 1).take (proposal.executionData.getD 0 0).toNat

def changedValue (proposal : Proposal) : UInt64 :=
  VotingSystem.readLE64 (proposal.executionData.drop (1 + (proposal.executionData.getD 0 0).toNat))

/-- The data hold an amount, a length and a recipient of that length. -/
structure EncodesSpending (proposal : Proposal) : Prop where
  size : 10 ≤ proposal.executionData.length
  recipient : 9 + (proposal.executionData.getD 8 0).toNat ≤ proposal.executionData.length

/-- The data hold a length, a key of that length and a value. -/
structure EncodesChange (proposal : Proposal) : Prop where
  size : 10 ≤ proposal.executionData.length
  value : 1 + (proposal.executionData.getD 0 0).toNat + 8 ≤ proposal.executionData.length

end Proposal

namespace VotingSystem

variable {voting after : VotingSystem} {id : UInt64} {proposal : Proposal} {treasury : Treasury}
  {govParams : GovernanceParams}

/-! ## Spendings -/

/-- The spend that the data of a proposal encode. -/
def encodedSpend (voting : VotingSystem) (treasury : Treasury) (proposal : Proposal) :
    Bool × Treasury :=
  treasury.spend proposal.spendingAmount proposal.spendingRecipient proposal.proposalId
    .uncategorized "proposal execution" voting.currentBlockHeight

/-- The treasury can pay what the data encode. -/
structure CanSpend (voting : VotingSystem) (treasury : Treasury) (proposal : Proposal) : Prop where
  encoded : proposal.EncodesSpending
  numbered : proposal.proposalId ≠ 0
  positive : proposal.spendingAmount ≠ 0
  covered : proposal.spendingAmount ≤ treasury.balances .uncategorized
  budgeted : treasury.isWithinBudget .uncategorized proposal.spendingAmount
    voting.currentBlockHeight = true
  reserved : treasury.violatesReserve proposal.spendingAmount = false

/-- One spend of the encoded amount to the encoded recipient succeeded, and nothing else. -/
structure PaidOnce (voting after : VotingSystem) (treasury : Treasury) (proposal : Proposal) :
    Prop where
  paid : ∃ paid, after.treasury = some paid ∧
    voting.encodedSpend treasury proposal = (true, paid) ∧
    paid.transactions = treasury.transactions ++
      [⟨treasury.nextTxId, false, proposal.spendingAmount, proposal.spendingRecipient,
        .uncategorized, proposal.proposalId, 0, "proposal execution", voting.currentBlockHeight⟩]
  params : after.govParams = voting.govParams

theorem encodedSpend_of_canSpend (can : voting.CanSpend treasury proposal) :
    ∃ paid, voting.encodedSpend treasury proposal = (true, paid) ∧
      paid.transactions = treasury.transactions ++
        [⟨treasury.nextTxId, false, proposal.spendingAmount, proposal.spendingRecipient,
          .uncategorized, proposal.proposalId, 0, "proposal execution",
          voting.currentBlockHeight⟩] := by
  have apart : ¬ Track.uncategorized = .emergency := by decide
  rw [encodedSpend, Treasury.spend, if_neg can.numbered, if_neg can.positive, if_neg apart,
    if_neg (UInt64.not_lt.mpr can.covered), can.budgeted, can.reserved]
  exact ⟨_, rfl, rfl⟩

theorem canSpend_iff : voting.CanSpend treasury proposal ↔
    proposal.EncodesSpending ∧ (voting.encodedSpend treasury proposal).1 = true := by
  constructor
  · intro can
    obtain ⟨paid, accepted, _⟩ := encodedSpend_of_canSpend can
    exact ⟨can.encoded, congrArg Prod.fst accepted⟩
  · intro both
    obtain ⟨encoded, accepted⟩ := both
    rcases treasury.spend_cases proposal.spendingAmount proposal.spendingRecipient
      proposal.proposalId .uncategorized "proposal execution" voting.currentBlockHeight with
      refused | ⟨numbered, positive, _, covered, budgeted, reserved, _⟩
    · rw [encodedSpend, refused] at accepted
      exact absurd accepted Bool.false_ne_true
    · exact ⟨encoded, numbered, positive, covered, budgeted, reserved⟩

theorem dispatchTreasurySpending_of_canSpend (attached : voting.treasury = some treasury)
    (can : voting.CanSpend treasury proposal) :
    voting.dispatchTreasurySpending proposal = some (voting.encodedSpend treasury proposal).2 := by
  have positive : proposal.spendingAmount > 0 := UInt64.pos_iff_ne_zero.mpr can.positive
  rw [dispatchTreasurySpending, attached, Option.map_some]
  exact congrArg some (if_pos ⟨can.encoded.size, can.encoded.recipient, positive⟩)

/-! ## Changes of a parameter -/

/-- The update that the data of a proposal encode. -/
def encodedChange (voting : VotingSystem) (govParams : GovernanceParams) (proposal : Proposal) :
    Bool × GovernanceParams :=
  govParams.updateParam proposal.changedKey proposal.changedValue proposal.proposalId
    voting.currentBlockHeight

/-- The key that the data encode is known and the value passes its check. -/
structure CanChange (proposal : Proposal) : Prop where
  encoded : proposal.EncodesChange
  numbered : proposal.proposalId ≠ 0
  known : ∃ known, ParamKey.ofBytes? proposal.changedKey = some known ∧
    known.validateUint proposal.changedValue = true

/-- One update of the encoded key to the encoded value succeeded, and nothing else. -/
structure ChangedOnce (voting after : VotingSystem) (govParams : GovernanceParams)
    (proposal : Proposal) : Prop where
  changed : ∃ changed known, after.govParams = some changed ∧
    voting.encodedChange govParams proposal = (true, changed) ∧
    ParamKey.ofBytes? proposal.changedKey = some known ∧
    changed.params = govParams.params.set proposal.changedValue known ∧
    changed.history = govParams.history ++
      [⟨proposal.changedKey, govParams.params.get known, proposal.changedValue,
        proposal.proposalId, voting.currentBlockHeight⟩]
  treasury : after.treasury = voting.treasury

theorem encodedChange_of_canChange (voting : VotingSystem) (govParams : GovernanceParams)
    (can : CanChange proposal) :
    ∃ changed known, voting.encodedChange govParams proposal = (true, changed) ∧
      ParamKey.ofBytes? proposal.changedKey = some known ∧
      changed.params = govParams.params.set proposal.changedValue known ∧
      changed.history = govParams.history ++
        [⟨proposal.changedKey, govParams.params.get known, proposal.changedValue,
          proposal.proposalId, voting.currentBlockHeight⟩] := by
  obtain ⟨known, isKey, valid⟩ := can.known
  rw [encodedChange, GovernanceParams.updateParam, if_neg can.numbered, isKey]
  simp only [valid, Bool.not_true, Bool.false_eq_true, if_false]
  exact ⟨_, known, rfl, rfl, rfl, rfl⟩

theorem canChange_iff : CanChange proposal ↔
    proposal.EncodesChange ∧ (voting.encodedChange govParams proposal).1 = true := by
  constructor
  · intro can
    obtain ⟨changed, known, accepted, _⟩ := encodedChange_of_canChange voting govParams can
    exact ⟨can.encoded, congrArg Prod.fst accepted⟩
  · intro both
    obtain ⟨encoded, accepted⟩ := both
    rcases govParams.updateParam_cases proposal.changedKey proposal.changedValue
      proposal.proposalId voting.currentBlockHeight with
      refused | ⟨known, isKey, numbered, valid, _⟩
    · rw [encodedChange, refused] at accepted
      exact absurd accepted Bool.false_ne_true
    · exact ⟨encoded, numbered, known, isKey, valid⟩

theorem dispatchParameterChange_of_canChange (attached : voting.govParams = some govParams)
    (can : CanChange proposal) :
    voting.dispatchParameterChange proposal = some (voting.encodedChange govParams proposal).2 := by
  rw [dispatchParameterChange, attached, Option.map_some]
  exact congrArg some (if_pos ⟨can.encoded.size, can.encoded.value⟩)

/-! ## Executions -/

/-- The data are well formed and the subsystem accepts what they encode.  The other types have
no subsystem that could refuse. -/
def SubsystemAccepts (voting : VotingSystem) (treasury : Treasury) (govParams : GovernanceParams)
    (proposal : Proposal) : Prop :=
  match proposal.type with
  | .treasurySpending =>
      proposal.EncodesSpending ∧ (voting.encodedSpend treasury proposal).1 = true
  | .parameterChange =>
      proposal.EncodesChange ∧ (voting.encodedChange govParams proposal).1 = true
  | _ => True

/-- The same in terms of the data, the balance, the budget and the reserve, and of the key. -/
def CanExecute (voting : VotingSystem) (treasury : Treasury) (proposal : Proposal) : Prop :=
  match proposal.type with
  | .treasurySpending => voting.CanSpend treasury proposal
  | .parameterChange => CanChange proposal
  | _ => True

def EffectHappened (voting after : VotingSystem) (treasury : Treasury)
    (govParams : GovernanceParams) (proposal : Proposal) : Prop :=
  match proposal.type with
  | .treasurySpending => voting.PaidOnce after treasury proposal
  | .parameterChange => voting.ChangedOnce after govParams proposal
  | _ => True

/-- An execution that answers true had its effect, and one whose data or subsystem do not
allow it answers false and leaves the proposal as it is. -/
structure MeansDone (voting : VotingSystem) (treasury : Treasury) (govParams : GovernanceParams)
    (id : UInt64) (proposal : Proposal) (outcome : Bool × VotingSystem) : Prop where
  done : outcome.1 = true → voting.EffectHappened outcome.2 treasury govParams proposal
  refused : ¬ voting.SubsystemAccepts treasury govParams proposal →
    outcome.1 = false ∧ outcome.2.proposals[id]? = some proposal

theorem subsystemAccepts_iff :
    voting.SubsystemAccepts treasury govParams proposal ↔ voting.CanExecute treasury proposal := by
  unfold SubsystemAccepts CanExecute
  cases proposal.type with
  | treasurySpending => exact canSpend_iff.symm
  | parameterChange => exact canChange_iff.symm
  | protocolUpgrade | general | constitutional | emergency => exact Iff.rfl

/-- Without a handler an execution that is due answers true, whatever comes of it. -/
theorem executeProposal_due (builtIn : voting.executionHandler = none)
    (stored : voting.proposals[id]? = some proposal) (passed : proposal.status = .passed)
    (due : ¬ voting.currentBlockHeight < proposal.executionTime) :
    voting.executeProposal id = (true, (voting.dispatch proposal).1.setProposal id
      { (voting.dispatch proposal).2 with status := .executed }) := by
  simp only [executeProposal, stored, passed, builtIn, if_neg due, ne_eq, not_true_eq_false,
    if_false]

theorem effectHappened_of_canExecute (spends : voting.treasury = some treasury)
    (changes : voting.govParams = some govParams) (builtIn : voting.executionHandler = none)
    (stored : voting.proposals[id]? = some proposal) (passed : proposal.status = .passed)
    (due : ¬ voting.currentBlockHeight < proposal.executionTime)
    (can : voting.CanExecute treasury proposal) :
    voting.EffectHappened (voting.executeProposal id).2 treasury govParams proposal := by
  rw [executeProposal_due builtIn stored passed due, EffectHappened]
  unfold CanExecute at can
  cases type : proposal.type with
  | treasurySpending =>
      rw [type] at can
      obtain ⟨paid, accepted, recorded⟩ := encodedSpend_of_canSpend can
      refine ⟨⟨paid, ?_, accepted, recorded⟩, ?_⟩
      · simp only [dispatch, type, setProposal, dispatchTreasurySpending_of_canSpend spends can,
          accepted]
      · simp only [dispatch, type, setProposal]
  | parameterChange =>
      rw [type] at can
      obtain ⟨changed, known, accepted, isKey, set_, recorded⟩ :=
        encodedChange_of_canChange voting govParams can
      refine ⟨⟨changed, known, ?_, accepted, isKey, set_, recorded⟩, ?_⟩
      · simp only [dispatch, type, setProposal, dispatchParameterChange_of_canChange changes can,
          accepted]
      · simp only [dispatch, type, setProposal]
  | protocolUpgrade | general | constitutional | emergency => trivial

/-- An execution means its effect exactly while it is too early for one and when its subsystem
accepts. -/
theorem executed_means_done_iff (spends : voting.treasury = some treasury)
    (changes : voting.govParams = some govParams) (builtIn : voting.executionHandler = none)
    (stored : voting.proposals[id]? = some proposal) (passed : proposal.status = .passed) :
    voting.MeansDone treasury govParams id proposal (voting.executeProposal id) ↔
      voting.currentBlockHeight < proposal.executionTime ∨ voting.CanExecute treasury proposal := by
  by_cases early : voting.currentBlockHeight < proposal.executionTime
  · have refused : voting.executeProposal id = (false, voting) := by
      simp only [executeProposal, stored, passed, if_pos early, ne_eq, not_true_eq_false, if_false]
    rw [refused]
    exact iff_of_true ⟨fun true_ => absurd true_ Bool.false_ne_true, fun _ => ⟨rfl, stored⟩⟩
      (.inl early)
  · have done : (voting.executeProposal id).1 = true := by
      rw [executeProposal_due builtIn stored passed early]
    rw [or_iff_right early]
    constructor
    · intro means
      by_contra cannot
      have answered := (means.refused (mt subsystemAccepts_iff.mp cannot)).1
      rw [done] at answered
      exact absurd answered.symm Bool.false_ne_true
    · intro can
      refine ⟨fun _ => ?_, fun refused => absurd (subsystemAccepts_iff.mpr can) refused⟩
      exact effectHappened_of_canExecute spends changes builtIn stored passed early can

/-- A treasury of a hundred. -/
def hundred : Treasury := ((Treasury.new 2 0).deposit 100 [9] .uncategorized 0).2

/-- A spending that has passed, with its data. -/
def passedSpending (executionData : Bytes) : Proposal :=
  { VotingSystem.new.newProposal [1] .treasurySpending "grant" "ten" executionData 0 with
    status := .passed }

/-- A voting system with the spending, the treasury and the parameters. -/
def withSpending (executionData : Bytes) : VotingSystem :=
  { VotingSystem.new with treasury := some hundred, govParams := some .new }.setProposal 1
    (passedSpending executionData)

theorem executed_means_done_ten :
    (withSpending [10, 0, 0, 0, 0, 0, 0, 0, 1, 7]).CanExecute hundred
        (passedSpending [10, 0, 0, 0, 0, 0, 0, 0, 1, 7]) ∧
      ((withSpending [10, 0, 0, 0, 0, 0, 0, 0, 1, 7]).MeansDone hundred .new 1
          (passedSpending [10, 0, 0, 0, 0, 0, 0, 0, 1, 7])
          ((withSpending [10, 0, 0, 0, 0, 0, 0, 0, 1, 7]).executeProposal 1) ↔
        (withSpending [10, 0, 0, 0, 0, 0, 0, 0, 1, 7]).currentBlockHeight <
            (passedSpending [10, 0, 0, 0, 0, 0, 0, 0, 1, 7]).executionTime ∨
          (withSpending [10, 0, 0, 0, 0, 0, 0, 0, 1, 7]).CanExecute hundred
            (passedSpending [10, 0, 0, 0, 0, 0, 0, 0, 1, 7])) := by
  constructor
  · exact ⟨⟨by decide, by decide⟩, by decide, by decide, by decide, by decide, by decide⟩
  · exact executed_means_done_iff rfl rfl rfl ExtTreeMap.getElem?_insert_self rfl

/-- A spending without data is executed and pays nothing. -/
theorem executed_without_data :
    ¬ ∀ (voting : VotingSystem) (treasury : Treasury) (govParams : GovernanceParams) (id : UInt64)
      (proposal : Proposal), voting.treasury = some treasury → voting.govParams = some govParams →
      voting.executionHandler = none → voting.proposals[id]? = some proposal →
      proposal.status = .passed →
      proposal.type = .treasurySpending ∨ proposal.type = .parameterChange →
      voting.MeansDone treasury govParams id proposal (voting.executeProposal id) := by
  intro claim
  have stored : (withSpending []).proposals[(1 : UInt64)]? = some (passedSpending []) :=
    ExtTreeMap.getElem?_insert_self
  have means := claim (withSpending []) hundred .new 1 (passedSpending []) rfl rfl rfl stored rfl
    (.inl rfl)
  have answered : ((withSpending []).executeProposal 1).1 = true := by
    have due : ¬ (withSpending []).currentBlockHeight < (passedSpending []).executionTime := by decide
    rw [executeProposal_due rfl stored rfl due]
  have malformed : ¬ (withSpending []).SubsystemAccepts hundred .new (passedSpending []) := by
    intro accepts
    exact absurd accepts.1.size (by decide)
  rw [(means.refused malformed).1] at answered
  exact absurd answered Bool.false_ne_true

end VotingSystem

end Parthenon.Governance
