import Parthenon.Governance.VotingLaws
import Parthenon.Library.Sums

namespace Parthenon.Governance

open Library Crypto Std

/-! # The rule of a tally

A tally against its rule in exact arithmetic.  Every proposal carries a veto threshold of
its own that creation leaves at its default, so the one that was set is never read.
-/

namespace Proposal

variable {proposal : Proposal}

/-- All four tallies in exact arithmetic. -/
def exactTotal (proposal : Proposal) : Nat :=
  proposal.yesVotes.toNat + proposal.noVotes.toNat + proposal.abstainVotes.toNat +
    proposal.vetoVotes.toNat

def exactApproval (proposal : Proposal) : Nat :=
  proposal.yesVotes.toNat + proposal.noVotes.toNat

/-- The rule: a quorum, not too many vetoes, and enough of yes among yes and no. -/
structure Follows (proposal : Proposal) (vetoThresholdBps : Nat) : Prop where
  quorum : proposal.quorumRequirement.toNat ≤ proposal.exactTotal
  vetoes : proposal.vetoVotes.toNat * 10000 ≤ proposal.exactTotal * vetoThresholdBps
  decided : 0 < proposal.exactApproval
  approved : proposal.approvalThreshold.toNat ≤
    100 * proposal.yesVotes.toNat / proposal.exactApproval

/-- The code's test of the vetoes: both products exceed 64 bits, or their comparison holds. -/
def VetoTest (proposal : Proposal) (vetoThresholdBps : Nat) : Prop :=
  proposal.vetoVotes.toNat * 10000 ≤ proposal.exactTotal * vetoThresholdBps ∨
    2 ^ 64 ≤ proposal.vetoVotes.toNat * 10000 ∧ 2 ^ 64 ≤ proposal.exactTotal * vetoThresholdBps

/-- The code's test of the approval, which divides first where a hundred times yes exceeds
64 bits. -/
def ApprovalTest (proposal : Proposal) : Prop :=
  if proposal.yesVotes.toNat * 100 < 2 ^ 64 then
    proposal.approvalThreshold.toNat * proposal.exactApproval ≤ 100 * proposal.yesVotes.toNat
  else
    proposal.approvalThreshold.toNat ≤ 100 ∧
      proposal.approvalThreshold.toNat * (proposal.exactApproval / 100) ≤ proposal.yesVotes.toNat

/-- What the code asks of a proposal that passes. -/
structure PassesTests (proposal : Proposal) (vetoThresholdBps : Nat) : Prop where
  quorum : proposal.quorumRequirement.toNat ≤ proposal.exactTotal
  vetoes : proposal.VetoTest vetoThresholdBps
  decided : 0 < proposal.exactApproval
  approved : proposal.ApprovalTest

section Tests

variable (fits : proposal.exactTotal < 2 ^ 64)

include fits in
theorem totalVotes_toNat : proposal.totalVotes.toNat = proposal.exactTotal := by
  simp only [totalVotes, UInt64.toNat_add, Nat.mod_add_mod]
  exact Nat.mod_eq_of_lt fits

include fits in
theorem approvalVotes_toNat :
    (proposal.yesVotes + proposal.noVotes).toNat = proposal.exactApproval := by
  rw [exactTotal] at fits
  exact toNat_add_of_fits (by omega)

include fits in
theorem isVetoed_iff (own : proposal.vetoThresholdBps = 3334) (vetoThresholdBps : UInt64) :
    proposal.isVetoed vetoThresholdBps = false ↔ proposal.VetoTest 3334 := by
  have effective : (if proposal.vetoThresholdBps > 0 then proposal.vetoThresholdBps
      else vetoThresholdBps) = 3334 := by
    rw [own]
    rfl
  have vetoes : (if proposal.vetoVotes ≤ 0xffffffffffffffff / 10000 then
      proposal.vetoVotes * 10000 else 0xffffffffffffffff).toNat =
        min (proposal.vetoVotes.toNat * 10000) (2 ^ 64 - 1) := capped_toNat (by decide)
  have share : (if (3334 : UInt64) = 0 ∨ proposal.totalVotes ≤ 0xffffffffffffffff / 3334 then
      proposal.totalVotes * 3334 else 0xffffffffffffffff).toNat =
        min (proposal.exactTotal * 3334) (2 ^ 64 - 1) := by
    simp only [show ¬ (3334 : UInt64) = 0 by decide, false_or]
    rw [← totalVotes_toNat fits]
    exact capped_toNat (by decide)
  simp only [isVetoed, effective]
  rw [decide_eq_false_iff_not, gt_iff_lt, UInt64.lt_iff_toNat_lt, vetoes, share, VetoTest]
  omega

include fits in
theorem approvalPercent_iff (decided : 0 < proposal.exactApproval) :
    proposal.approvalPercent ≥ proposal.approvalThreshold ↔ proposal.ApprovalTest := by
  have votes := approvalVotes_toNat fits
  have most : proposal.yesVotes.toNat ≤ proposal.exactApproval := Nat.le_add_right _ _
  have guard_ : proposal.yesVotes ≤ 0xffffffffffffffff / 100 ↔
      proposal.yesVotes.toNat * 100 < 2 ^ 64 := by
    rw [← UInt64.not_lt, ← gt_iff_lt, mul_fits_iff (by decide), Nat.mul_comm]
    rfl
  rw [ge_iff_le, UInt64.le_iff_toNat_le, ApprovalTest, approvalPercent]
  by_cases small : proposal.yesVotes.toNat * 100 < 2 ^ 64
  · rw [if_pos small, if_pos (guard_.mpr small), UInt64.toNat_div, votes, UInt64.toNat_mul,
      show (100 : UInt64).toNat = 100 from rfl, Nat.mod_eq_of_lt small,
      Nat.le_div_iff_mul_le decided, Nat.mul_comm 100]
  · have denominator : ((proposal.yesVotes + proposal.noVotes) / 100).toNat =
        proposal.exactApproval / 100 := by
      rw [UInt64.toNat_div, votes]
      rfl
    have positive : 0 < proposal.exactApproval / 100 := by omega
    have nonzero : (proposal.yesVotes + proposal.noVotes) / 100 > 0 := by
      rw [gt_iff_lt, UInt64.lt_iff_toNat_lt, denominator]
      exact positive
    simp only [if_neg small, if_neg (mt guard_.mp small), if_pos nonzero]
    rw [← Nat.le_div_iff_mul_le positive]
    have percent : (proposal.yesVotes / ((proposal.yesVotes + proposal.noVotes) / 100)).toNat =
        proposal.yesVotes.toNat / (proposal.exactApproval / 100) := by
      rw [UInt64.toNat_div, denominator]
    have hundred : (100 : UInt64).toNat = 100 := rfl
    split
    · rename_i above
      rw [gt_iff_lt, UInt64.lt_iff_toNat_lt, percent] at above
      omega
    · rename_i below
      rw [gt_iff_lt, UInt64.lt_iff_toNat_lt, percent] at below
      omega

include fits in
/-- A tally passes or rejects a proposal, by its tests. -/
theorem tally_cases (own : proposal.vetoThresholdBps = 3334)
    (vetoThresholdBps currentBlockHeight : UInt64) :
    (proposal.tally vetoThresholdBps currentBlockHeight).status = .passed ∧
        proposal.PassesTests 3334 ∨
      (proposal.tally vetoThresholdBps currentBlockHeight).status = .rejected ∧
        ¬ proposal.PassesTests 3334 := by
  have votes := approvalVotes_toNat fits
  have quorum : proposal.totalVotes < proposal.quorumRequirement ↔
      proposal.exactTotal < proposal.quorumRequirement.toNat := by
    rw [UInt64.lt_iff_toNat_lt, totalVotes_toNat fits]
  rw [tally]
  by_cases few : proposal.totalVotes < proposal.quorumRequirement
  · rw [if_pos few]
    exact .inr ⟨rfl, fun tests => Nat.not_le.mpr (quorum.mp few) tests.quorum⟩
  · rw [if_neg few]
    cases vetoed : proposal.isVetoed vetoThresholdBps with
    | true =>
        refine .inr ⟨rfl, fun tests => ?_⟩
        rw [(isVetoed_iff fits own vetoThresholdBps).mpr tests.vetoes] at vetoed
        exact absurd vetoed Bool.false_ne_true
    | false =>
        rw [if_neg Bool.false_ne_true]
        by_cases undecided : proposal.yesVotes + proposal.noVotes = 0
        · have none_ : proposal.exactApproval = 0 := votes ▸ congrArg UInt64.toNat undecided
          rw [if_pos undecided]
          exact .inr ⟨rfl, fun tests => tests.decided.ne' none_⟩
        · have decided : 0 < proposal.exactApproval := by
            rw [← votes]
            exact Nat.pos_of_ne_zero fun zero => undecided (UInt64.toNat_inj.mp zero)
          rw [if_neg undecided]
          by_cases enough : proposal.approvalPercent ≥ proposal.approvalThreshold
          · rw [if_pos enough]
            exact .inl ⟨rfl, Nat.not_lt.mp (mt quorum.mpr few),
              (isVetoed_iff fits own vetoThresholdBps).mp vetoed, decided,
              (approvalPercent_iff fits decided).mp enough⟩
          · rw [if_neg enough]
            exact .inr ⟨rfl, fun tests =>
              enough ((approvalPercent_iff fits decided).mpr tests.approved)⟩

end Tests

/-- What creation fixes of a proposal. -/
structure SameRules (proposal created : Proposal) : Prop where
  votingEnd : proposal.votingEnd = created.votingEnd
  quorum : proposal.quorumRequirement = created.quorumRequirement
  approval : proposal.approvalThreshold = created.approvalThreshold
  vetoes : proposal.vetoThresholdBps = created.vetoThresholdBps

theorem SameRules.trans {first second third : Proposal} (one : first.SameRules second)
    (two : second.SameRules third) : first.SameRules third :=
  ⟨one.votingEnd.trans two.votingEnd, one.quorum.trans two.quorum, one.approval.trans two.approval,
    one.vetoes.trans two.vetoes⟩

theorem count_sameRules (proposal : Proposal) (choice : VoteChoice) (power : UInt64) :
    (proposal.count choice power).SameRules proposal := by
  obtain ⟨status, yes, no, abstain, veto, same⟩ := proposal.count_frame choice power
  rw [same]
  exact ⟨rfl, rfl, rfl, rfl⟩

theorem tally_sameRules (proposal : Proposal) (vetoThresholdBps currentBlockHeight : UInt64) :
    (proposal.tally vetoThresholdBps currentBlockHeight).SameRules proposal := by
  obtain ⟨status, executionTime, _, same⟩ := proposal.tally_frame vetoThresholdBps currentBlockHeight
  rw [same]
  exact ⟨rfl, rfl, rfl, rfl⟩

end Proposal

namespace VotingSystem

variable {secp : Secp256k1} {voting next : VotingSystem} {proposalId : UInt64} {created : Proposal}

/-- The proposal is stored, with the rules it was created with. -/
def Carries (voting : VotingSystem) (proposalId : UInt64) (created : Proposal) : Prop :=
  ∃ proposal, voting.proposals[proposalId]? = some proposal ∧ proposal.SameRules created

theorem Carries.write (carries : voting.Carries proposalId created) {id : UInt64}
    {stored changed : Proposal} (found : voting.proposals[id]? = some stored)
    (written : next.proposals = voting.proposals.insert id changed)
    (same : changed.SameRules stored) : next.Carries proposalId created := by
  obtain ⟨proposal, there, rules⟩ := carries
  by_cases this : id = proposalId
  · subst this
    rw [found, Option.some.injEq] at there
    subst there
    exact ⟨changed, by rw [written, ExtTreeMap.getElem?_insert_self], same.trans rules⟩
  · refine ⟨proposal, ?_, rules⟩
    rw [written, getElem?_insert_eq, if_neg this, there]

/-- No call but a creation under its id changes the rules of a proposal. -/
theorem Carries.apply {call : VotingCall} (carries : voting.Carries proposalId created)
    (fresh : voting.nextProposalId ≠ proposalId) (applied : voting.apply secp call = some next) :
    next.Carries proposalId created := by
  cases call with
  | createProposal proposer type title description executionData depositAmount =>
      cases applied
      obtain ⟨proposal, there, rules⟩ := carries
      refine ⟨proposal, ?_, rules⟩
      simp only [createProposal, newProposal, getElem?_insert_eq, if_neg fresh, there]
  | castVote id voter choice votingPower signature =>
      obtain ⟨⟨result, after⟩, cast_, same⟩ := Option.map_eq_some_iff.mp applied
      cases same
      rcases voting.castVote_cases cast_ with ⟨_, refused⟩ | ⟨stored, found, outcome⟩
      · rwa [refused]
      · have screened : (voting.setProposal id (voting.screen id stored).2).Carries proposalId
            created := by
          refine carries.write found rfl ?_
          rcases voting.screen_cases id stored with same | ⟨_, _, _, same⟩
          · rw [same]
            exact ⟨rfl, rfl, rfl, rfl⟩
          · rw [same]
            exact ⟨rfl, rfl, rfl, rfl⟩
        rcases outcome with ⟨_, refused⟩ | ⟨effective, _, _, recorded⟩
        · rwa [refused]
        · rw [recorded]
          exact screened.write ExtTreeMap.getElem?_insert_self rfl (Proposal.count_sameRules _ _ _)
  | tallyVotes id =>
      cases applied
      rcases voting.tallyVotes_cases id with refused | ⟨proposal, found, _, done⟩
      · rwa [refused]
      · rw [done]
        exact carries.write found rfl (proposal.tally_sameRules _ _)
  | executeProposal id =>
      cases applied
      rcases voting.executeProposal_cases id with
        refused | ⟨proposal, govParams, treasury, executionData, found, _, _, done⟩
      · rwa [refused]
      · rw [done]
        exact carries.write found rfl ⟨rfl, rfl, rfl, rfl⟩
  | updateBlockHeight height =>
      cases applied
      exact carries
  | markBouleApproved id =>
      cases applied
      rcases voting.markBouleApproved_cases id with refused | ⟨proposal, found, done⟩
      · rwa [refused]
      · rw [done]
        exact carries.write found rfl ⟨rfl, rfl, rfl, rfl⟩
  | returnDeposit id | slashDeposit id =>
      cases applied
      simp only [returnDeposit, slashDeposit]
      rcases voting.closeDeposit_cases id with refused | ⟨proposal, found, done⟩
      · rwa [refused]
      · rw [done]
        exact carries.write found rfl ⟨rfl, rfl, rfl, rfl⟩

/-- In a run that does not create a proposal under the id once more the rules stay those of the
creation. -/
theorem run_carries {proposer : Bytes} {type : ProposalType} {title description : String}
    {executionData : Bytes} {depositAmount : UInt64} {calls : List VotingCall}
    (run : Run (fun state call after =>
        state.nextProposalId ≠ voting.nextProposalId ∧ state.apply secp call = some after)
      (voting.createProposal proposer type title description executionData depositAmount).2 calls
      next) :
    next.Carries voting.nextProposalId
      (voting.newProposal proposer type title description executionData depositAmount) := by
  apply run.invariant (motive := fun state => state.Carries voting.nextProposalId
    (voting.newProposal proposer type title description executionData depositAmount))
  · exact ⟨_, ExtTreeMap.getElem?_insert_self, rfl, rfl, rfl, rfl⟩
  · intro state call after carries step
    exact carries.apply step.1 step.2

end VotingSystem

namespace Proposal

/-- When the tests come to the rule: the proposal is rejected by both for its quorum or for
want of a decision, or the tests of the vetoes agree on a proposal with enough of yes, or
one with too little of it fails a test. -/
def TestsAgree (proposal : Proposal) (vetoThresholdBps : Nat) : Prop :=
  proposal.exactTotal < proposal.quorumRequirement.toNat ∨ proposal.exactApproval = 0 ∨
    (proposal.approvalThreshold.toNat * proposal.exactApproval ≤ 100 * proposal.yesVotes.toNat ∧
      (proposal.vetoVotes.toNat * 10000 ≤ proposal.exactTotal * vetoThresholdBps ↔
        proposal.VetoTest 3334)) ∨
    (100 * proposal.yesVotes.toNat < proposal.approvalThreshold.toNat * proposal.exactApproval ∧
      (¬ proposal.ApprovalTest ∨ ¬ proposal.VetoTest 3334))

/-- A share that is met exactly is met by the test. -/
theorem approvalTest_of_share {proposal : Proposal} (decided : 0 < proposal.exactApproval)
    (share : proposal.approvalThreshold.toNat * proposal.exactApproval ≤
      100 * proposal.yesVotes.toNat) : proposal.ApprovalTest := by
  have most : proposal.yesVotes.toNat ≤ proposal.exactApproval := Nat.le_add_right _ _
  rw [ApprovalTest]
  split
  · exact share
  · constructor
    · exact Nat.le_of_mul_le_mul_right (share.trans (Nat.mul_le_mul_left 100 most)) decided
    · have scaled : 100 * (proposal.approvalThreshold.toNat * (proposal.exactApproval / 100)) ≤
          100 * proposal.yesVotes.toNat := by
        calc 100 * (proposal.approvalThreshold.toNat * (proposal.exactApproval / 100))
            = proposal.approvalThreshold.toNat * (100 * (proposal.exactApproval / 100)) :=
              Nat.mul_left_comm _ _ _
          _ ≤ proposal.approvalThreshold.toNat * proposal.exactApproval :=
              Nat.mul_le_mul_left _ (Nat.mul_div_le _ _)
          _ ≤ 100 * proposal.yesVotes.toNat := share
      omega

theorem follows_iff_passesTests (proposal : Proposal) (vetoThresholdBps : Nat) :
    (proposal.Follows vetoThresholdBps ↔ proposal.PassesTests 3334) ↔
      proposal.TestsAgree vetoThresholdBps := by
  rw [TestsAgree]
  by_cases few : proposal.exactTotal < proposal.quorumRequirement.toNat
  · refine iff_of_true (iff_of_false ?_ ?_) (.inl few)
    · intro follows
      exact Nat.not_le.mpr few follows.quorum
    · intro tests
      exact Nat.not_le.mpr few tests.quorum
  · by_cases undecided : proposal.exactApproval = 0
    · refine iff_of_true (iff_of_false ?_ ?_) (.inr (.inl undecided))
      · intro follows
        exact follows.decided.ne' undecided
      · intro tests
        exact tests.decided.ne' undecided
    · have decided := Nat.pos_of_ne_zero undecided
      have quorum := Nat.not_lt.mp few
      have rule : proposal.Follows vetoThresholdBps ↔
          proposal.vetoVotes.toNat * 10000 ≤ proposal.exactTotal * vetoThresholdBps ∧
            proposal.approvalThreshold.toNat * proposal.exactApproval ≤
              100 * proposal.yesVotes.toNat := by
        rw [← Nat.le_div_iff_mul_le decided]
        exact ⟨fun follows => ⟨follows.vetoes, follows.approved⟩,
          fun both => ⟨quorum, both.1, decided, both.2⟩⟩
      have tests : proposal.PassesTests 3334 ↔ proposal.VetoTest 3334 ∧ proposal.ApprovalTest :=
        ⟨fun passes => ⟨passes.vetoes, passes.approved⟩,
          fun both => ⟨quorum, both.1, decided, both.2⟩⟩
      rw [rule, tests, or_iff_right few, or_iff_right undecided]
      by_cases share : proposal.approvalThreshold.toNat * proposal.exactApproval ≤
          100 * proposal.yesVotes.toNat
      · simp only [share, approvalTest_of_share decided share, and_true, true_and,
          Nat.not_lt.mpr share, false_and, or_false]
      · simp only [share, Nat.not_le.mp share, and_false, false_and, true_and, false_or, false_iff]
        rw [not_and_or, or_comm]

end Proposal

/-- A tally after the voting period follows the rule with the threshold that was set exactly when
its tests agree with it. -/
theorem tally_follows_iff {voting after later : VotingSystem} {bps id : UInt64} {proposer : Bytes}
    {type : ProposalType} {title description : String} {executionData : Bytes}
    {depositAmount : UInt64} {created proposal : Proposal}
    (made : (voting.setVetoThreshold bps).createProposal proposer type title description
      executionData depositAmount = (id, after))
    (stored : after.proposals[id]? = some created) (there : later.proposals[id]? = some proposal)
    (rules : proposal.SameRules created) (fits : proposal.exactTotal < 2 ^ 64)
    (ended : proposal.votingEnd < later.currentBlockHeight) :
    ∃ tallied, (later.tallyVotes id).1 = true ∧
      (later.tallyVotes id).2.proposals[id]? = some tallied ∧
      ((tallied.status = .passed ↔ proposal.Follows bps.toNat) ∧
          (¬ proposal.Follows bps.toNat → tallied.status = .rejected) ↔
        proposal.TestsAgree bps.toNat) := by
  have own : proposal.vetoThresholdBps = 3334 := by
    cases made
    have same := ExtTreeMap.getElem?_insert_self.symm.trans stored
    rw [rules.vetoes, ← Option.some.inj same]
    rfl
  have tallied : later.tallyVotes id = (true, later.setProposal id
      (proposal.tally later.vetoThresholdBps later.currentBlockHeight)) := by
    simp only [VotingSystem.tallyVotes, there, if_neg (UInt64.not_le.mpr ended)]
  rw [tallied, ← proposal.follows_iff_passesTests]
  refine ⟨_, rfl, ExtTreeMap.getElem?_insert_self, ?_⟩
  rcases proposal.tally_cases fits own later.vetoThresholdBps later.currentBlockHeight with
    ⟨passed, tests⟩ | ⟨rejected, tests⟩
  · rw [passed]
    constructor
    · intro follows
      exact iff_of_true (follows.1.mp rfl) tests
    · intro same
      exact ⟨iff_of_true rfl (same.mpr tests), fun not_ => absurd (same.mpr tests) not_⟩
  · have different : ¬ ProposalStatus.rejected = .passed := by decide
    rw [rejected]
    constructor
    · intro follows
      exact iff_of_false (mt follows.1.mpr different) tests
    · intro same
      exact ⟨iff_of_false different (mt same.mp tests), fun _ => rfl⟩

/-- A voting system whose threshold was set to a half, with one proposal. -/
def halfVeto : VotingSystem :=
  ((VotingSystem.new.setVetoThreshold 5000).createProposal [1] .general "charter" "text" [] 0).2

/-- The proposal with two vetoes in five votes. -/
def contested : Proposal :=
  { (VotingSystem.new.setVetoThreshold 5000).newProposal [1] .general "charter" "text" [] 0 with
    status := .active
    yesVotes := 600000
    vetoVotes := 400000 }

/-- The system after the voting period of the proposal. -/
def periodOver : VotingSystem := (halfVeto.updateBlockHeight 10101).setProposal 1 contested

theorem tally_follows_contested :
    (contested.exactTotal < 2 ^ 64 ∧ contested.votingEnd < periodOver.currentBlockHeight) ∧
      ∃ tallied, (periodOver.tallyVotes 1).1 = true ∧
        (periodOver.tallyVotes 1).2.proposals[(1 : UInt64)]? = some tallied ∧
        ((tallied.status = .passed ↔ contested.Follows (5000 : UInt64).toNat) ∧
            (¬ contested.Follows (5000 : UInt64).toNat → tallied.status = .rejected) ↔
          contested.TestsAgree (5000 : UInt64).toNat) := by
  have created : halfVeto.proposals[(1 : UInt64)]? =
      some ((VotingSystem.new.setVetoThreshold 5000).newProposal [1] .general "charter" "text" [] 0) :=
    ExtTreeMap.getElem?_insert_self
  have there : periodOver.proposals[(1 : UInt64)]? = some contested :=
    ExtTreeMap.getElem?_insert_self
  have made : (VotingSystem.new.setVetoThreshold 5000).createProposal [1] .general "charter" "text"
      [] 0 = (1, halfVeto) := rfl
  exact ⟨by decide, tally_follows_iff made created there ⟨rfl, rfl, rfl, rfl⟩ (by decide) (by decide)⟩

/-- Two vetoes in five votes reject the proposal although the threshold was set to a half. -/
theorem set_threshold_ignored :
    ¬ ∀ (voting after later : VotingSystem) (bps id : UInt64) (proposer : Bytes)
      (type : ProposalType) (title description : String) (executionData : Bytes)
      (depositAmount : UInt64) (created proposal : Proposal),
      (voting.setVetoThreshold bps).createProposal proposer type title description executionData
          depositAmount = (id, after) →
        after.proposals[id]? = some created → later.proposals[id]? = some proposal →
        proposal.SameRules created → proposal.exactTotal < 2 ^ 64 →
        proposal.votingEnd < later.currentBlockHeight →
        ∃ tallied, (later.tallyVotes id).2.proposals[id]? = some tallied ∧
          (tallied.status = .passed ↔ proposal.Follows bps.toNat) := by
  intro claim
  have created : halfVeto.proposals[(1 : UInt64)]? =
      some ((VotingSystem.new.setVetoThreshold 5000).newProposal [1] .general "charter" "text" [] 0) :=
    ExtTreeMap.getElem?_insert_self
  have there : periodOver.proposals[(1 : UInt64)]? = some contested :=
    ExtTreeMap.getElem?_insert_self
  obtain ⟨tallied, found, same⟩ := claim VotingSystem.new halfVeto periodOver 5000 1 [1] .general
    "charter" "text" [] 0 _ contested rfl created there ⟨rfl, rfl, rfl, rfl⟩ (by decide) (by decide)
  have stored : (periodOver.tallyVotes 1).2.proposals[(1 : UInt64)]? =
      some (contested.tally 5000 10101) := by
    have late : ¬ periodOver.currentBlockHeight ≤ contested.votingEnd := by decide
    simp only [VotingSystem.tallyVotes, there, if_neg late]
    exact ExtTreeMap.getElem?_insert_self
  rw [stored, Option.some.injEq] at found
  have follows : contested.Follows (5000 : UInt64).toNat :=
    ⟨by decide, by decide, by decide, by decide⟩
  have passed := same.mpr follows
  rw [← found] at passed
  revert passed
  decide

end Parthenon.Governance
