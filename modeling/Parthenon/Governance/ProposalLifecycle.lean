import Parthenon.Governance.TreasuryLaws
import Parthenon.Governance.VotingLaws
import Parthenon.Library.Numbering

namespace Parthenon.Governance

open Library Crypto Std

/-! # The life of a proposal

A tally does not ask for the status of its proposal, so one that was executed can pass
and be executed again.
-/

namespace Proposal

theorem count_executed_iff (proposal : Proposal) (choice : VoteChoice) (power : UInt64) :
    (proposal.count choice power).status = .executed ↔ proposal.status = .executed := by
  have kept : ∀ counted : Proposal, counted.status = proposal.status →
      ((if counted.status = .pending then { counted with status := .active } else counted).status =
        .executed ↔ proposal.status = .executed) := by
    intro counted same
    rw [same]
    cases status : proposal.status <;> simp [same, status]
  cases choice <;> exact kept _ rfl

theorem tally_status (proposal : Proposal) (vetoThresholdBps currentBlockHeight : UInt64) :
    (proposal.tally vetoThresholdBps currentBlockHeight).status ≠ .executed := by
  obtain ⟨status, executionTime, open_, same⟩ :=
    proposal.tally_frame vetoThresholdBps currentBlockHeight
  rw [same]
  exact open_

end Proposal

/-- A voting system with the proposals that were executed and those that the treasury
paid, by the order in which they were created. -/
structure Lifecycle where
  voting : VotingSystem
  number : UInt64 → Nat
  created : Nat
  executed : List Nat
  paid : List Nat

namespace Lifecycle

/-- A voting system of any configuration, before its first proposal. -/
def start (voting : VotingSystem) : Lifecycle where
  voting := { voting with nextProposalId := 1, proposals := ∅, votes := ∅ }
  number _ := 0
  created := 0
  executed := []
  paid := []

variable (secp : Secp256k1) (lifecycle : Lifecycle)

/-- The number of payments and deposits that the treasury has recorded. -/
def recorded (voting : VotingSystem) : Nat :=
  (voting.treasury.map (·.transactions.length)).getD 0

def after : VotingCall → Option Lifecycle
  | .createProposal proposer type title description executionData depositAmount =>
      some
        { lifecycle with
          voting := (lifecycle.voting.createProposal proposer type title description executionData
            depositAmount).2
          number := Function.update lifecycle.number lifecycle.voting.nextProposalId lifecycle.created
          created := lifecycle.created + 1 }
  | .executeProposal proposalId =>
      let (done, voting) := lifecycle.voting.executeProposal proposalId
      some
        { lifecycle with
          voting
          executed :=
            if done then lifecycle.number proposalId :: lifecycle.executed else lifecycle.executed
          paid :=
            if recorded voting = recorded lifecycle.voting then lifecycle.paid
            else lifecycle.number proposalId :: lifecycle.paid }
  | call => (lifecycle.voting.apply secp call).map fun voting => { lifecycle with voting }

/-- Each proposal was executed and paid once at most, and the proposals that were executed
are the ones that have that status. -/
structure Once : Prop where
  executed : lifecycle.executed.Nodup
  paid : lifecycle.paid.Nodup
  permanent : ∀ id proposal, lifecycle.voting.proposals[id]? = some proposal →
    (proposal.status = .executed ↔ lifecycle.number id ∈ lifecycle.executed)

/-- A proposal is not tallied once it was executed. -/
def Orderly : VotingCall → Prop
  | .tallyVotes proposalId =>
      ∀ proposal ∈ lifecycle.voting.proposals[proposalId]?,
        proposal.votingEnd < lifecycle.voting.currentBlockHeight → proposal.status ≠ .executed
  | _ => True

instance : ∀ call, Decidable (lifecycle.Orderly call)
  | .tallyVotes _ => inferInstanceAs (Decidable (∀ proposal ∈ _, _))
  | .createProposal .. | .castVote .. | .executeProposal _ | .updateBlockHeight _
  | .markBouleApproved _ | .returnDeposit _ | .slashDeposit _ => inferInstanceAs (Decidable True)

def OrderlyStep (lifecycle : Lifecycle) (call : VotingCall) (next : Lifecycle) : Prop :=
  lifecycle.Orderly call ∧ lifecycle.after secp call = some next

/-- The proposals that are stored, with numbers of their own, and the lists agree. -/
structure Sound : Prop where
  once : lifecycle.Once
  numbered : Numbered (fun id => lifecycle.voting.proposals[id]?) lifecycle.number lifecycle.created
  earlier : ∀ number ∈ lifecycle.executed, number < lifecycle.created
  covered : ∀ number ∈ lifecycle.paid, number ∈ lifecycle.executed

variable {secp} {lifecycle}

theorem start_sound (voting : VotingSystem) : (start voting).Sound where
  once := ⟨List.nodup_nil, List.nodup_nil, fun _ _ found => absurd found not_found_empty⟩
  numbered := ⟨fun _ _ found => absurd found not_found_empty,
    fun _ _ _ _ found => absurd found not_found_empty⟩
  earlier := nofun
  covered := nofun

/-- A proposal that is written over may change anything but whether it was executed. -/
theorem Sound.write (sound : lifecycle.Sound) {voting : VotingSystem} {id : UInt64}
    {stored changed : Proposal} (found : lifecycle.voting.proposals[id]? = some stored)
    (written : voting.proposals = lifecycle.voting.proposals.insert id changed)
    (same : changed.status = .executed ↔ stored.status = .executed) :
    { lifecycle with voting }.Sound := by
  obtain ⟨⟨executed, paid, permanent⟩, numbered, earlier, covered⟩ := sound
  have table : (fun other => voting.proposals[other]?) =
      Function.update (fun other => lifecycle.voting.proposals[other]?) id (some changed) := by
    rw [written, getElem?_insert_update]
  refine ⟨⟨executed, paid, ?_⟩, ?_, earlier, covered⟩
  · intro other proposal there
    rcases update_cases ((congrFun table other).symm.trans there) with ⟨rfl, rfl⟩ | ⟨-, before⟩
    · exact same.trans (permanent _ stored found)
    · exact permanent other proposal before
  · change Numbered (fun other => voting.proposals[other]?) _ _
    rw [table]
    exact numbered.write found changed

/-- What keeps the proposals keeps everything. -/
theorem Sound.keep (sound : lifecycle.Sound) {voting : VotingSystem}
    (kept : voting.proposals = lifecycle.voting.proposals) : { lifecycle with voting }.Sound := by
  obtain ⟨⟨executed, paid, permanent⟩, numbered, earlier, covered⟩ := sound
  refine ⟨⟨executed, paid, ?_⟩, ?_, earlier, covered⟩
  · dsimp only
    rw [kept]
    exact permanent
  · dsimp only
    rw [kept]
    exact numbered

theorem castVote_sound (sound : lifecycle.Sound) {proposalId : UInt64} {voter : Bytes}
    {choice : VoteChoice} {votingPower : UInt64} {signature : Bytes} {result : Bool}
    {voting : VotingSystem}
    (cast_ : lifecycle.voting.castVote secp proposalId voter choice votingPower signature =
      some (result, voting)) : { lifecycle with voting }.Sound := by
  rcases lifecycle.voting.castVote_cases cast_ with ⟨-, rfl⟩ | ⟨stored, found, outcome⟩
  · exact sound
  · have screened : { lifecycle with
        voting := lifecycle.voting.setProposal proposalId
          (lifecycle.voting.screen proposalId stored).2 }.Sound := by
      refine sound.write found rfl ?_
      rcases lifecycle.voting.screen_cases proposalId stored with same | ⟨-, -, -, same⟩ <;> rw [same]
    rcases outcome with ⟨-, rfl⟩ | ⟨effective, -, -, rfl⟩
    · exact screened
    · exact screened.write ExtTreeMap.getElem?_insert_self rfl (Proposal.count_executed_iff _ _ _)

theorem createProposal_sound (sound : lifecycle.Sound) {voting : VotingSystem} (id : UInt64)
    {proposal : Proposal} (pending : proposal.status ≠ .executed)
    (written : voting.proposals = lifecycle.voting.proposals.insert id proposal) :
    { lifecycle with
      voting
      number := Function.update lifecycle.number id lifecycle.created
      created := lifecycle.created + 1 }.Sound := by
  obtain ⟨⟨executed, paid, permanent⟩, numbered, earlier, covered⟩ := sound
  have table : (fun other => voting.proposals[other]?) =
      Function.update (fun other => lifecycle.voting.proposals[other]?) id (some proposal) := by
    rw [written, getElem?_insert_update]
  refine ⟨⟨executed, paid, ?_⟩, ?_, ?_, covered⟩
  · intro other kept there
    dsimp only
    rcases update_cases ((congrFun table other).symm.trans there) with ⟨rfl, rfl⟩ | ⟨differs, before⟩
    · rw [Function.update_self]
      constructor
      · intro done
        exact absurd done pending
      · intro listed
        have below := earlier _ listed
        omega
    · rw [Function.update_of_ne differs]
      exact permanent other kept before
  · dsimp only
    rw [table]
    exact numbered.open_ id proposal
  · intro number listed
    exact Nat.lt_succ_of_lt (earlier number listed)

theorem executeProposal_sound (sound : lifecycle.Sound) {id : UInt64} {next : Lifecycle}
    (taken : lifecycle.after secp (.executeProposal id) = some next) : next.Sound := by
  rcases lifecycle.voting.executeProposal_cases id with
    refused | ⟨proposal, govParams, treasury, executionData, found, passed, -, done⟩
  · simp only [after, refused, Bool.false_eq_true, if_false, if_true] at taken
    cases taken
    exact sound
  · obtain ⟨⟨executed, paid, permanent⟩, numbered, earlier, covered⟩ := sound
    simp only [after, done, if_true] at taken
    cases taken
    have unlisted : lifecycle.number id ∉ lifecycle.executed := by
      intro listed
      have already := (permanent id proposal found).mpr listed
      rw [passed] at already
      cases already
    have table : (fun other => (lifecycle.voting.proposals.insert id
          { proposal with executionData, status := .executed })[other]?) =
        Function.update (fun other => lifecycle.voting.proposals[other]?) id
          (some { proposal with executionData, status := .executed }) := getElem?_insert_update _ _ _
    refine ⟨⟨List.nodup_cons.mpr ⟨unlisted, executed⟩, ?_, ?_⟩, ?_, ?_, ?_⟩
    · dsimp only
      split
      · exact paid
      · exact List.nodup_cons.mpr ⟨fun listed => unlisted (covered _ listed), paid⟩
    · intro other kept there
      rcases update_cases ((congrFun table other).symm.trans there) with ⟨rfl, rfl⟩ | ⟨differs, before⟩
      · exact ⟨fun _ => List.mem_cons_self, fun _ => rfl⟩
      · have apart : lifecycle.number other ≠ lifecycle.number id := by
          intro same
          exact differs (numbered.distinct other kept id proposal before found same)
        rw [permanent other kept before, List.mem_cons, or_iff_right apart]
    · change Numbered (fun other => (lifecycle.voting.proposals.insert id _)[other]?) _ _
      rw [table]
      exact numbered.write found _
    · intro number listed
      rcases List.mem_cons.mp listed with rfl | before
      · exact numbered.below id proposal found
      · exact earlier number before
    · intro number listed
      dsimp only at listed ⊢
      split at listed
      · exact List.mem_cons_of_mem _ (covered number listed)
      · rcases List.mem_cons.mp listed with rfl | before
        · exact List.mem_cons_self
        · exact List.mem_cons_of_mem _ (covered number before)

theorem orderly_step_sound {call : VotingCall} {next : Lifecycle} (sound : lifecycle.Sound)
    (step : OrderlyStep secp lifecycle call next) : next.Sound := by
  obtain ⟨orderly, taken⟩ := step
  cases call with
  | createProposal proposer type title description executionData depositAmount =>
      cases taken
      refine createProposal_sound sound lifecycle.voting.nextProposalId ?_ rfl
      intro executed
      cases executed
  | castVote proposalId voter choice votingPower signature =>
      obtain ⟨voting, applied, rfl⟩ := Option.map_eq_some_iff.mp taken
      rw [VotingSystem.apply] at applied
      obtain ⟨⟨result, voting⟩, cast_, rfl⟩ := Option.map_eq_some_iff.mp applied
      exact castVote_sound sound cast_
  | tallyVotes proposalId =>
      cases taken
      rcases lifecycle.voting.tallyVotes_cases proposalId with refused | ⟨proposal, found, ended, done⟩
      · rw [refused]
        exact sound
      · rw [done]
        refine sound.write found rfl ?_
        exact iff_of_false (proposal.tally_status _ _) (orderly proposal found ended)
  | executeProposal => exact executeProposal_sound sound taken
  | updateBlockHeight height =>
      cases taken
      exact sound.keep rfl
  | markBouleApproved proposalId =>
      cases taken
      rcases lifecycle.voting.markBouleApproved_cases proposalId with refused | ⟨proposal, found, done⟩
      · rw [refused]
        exact sound
      · rw [done]
        exact sound.write found rfl Iff.rfl
  | returnDeposit proposalId | slashDeposit proposalId =>
      cases taken
      simp only [VotingSystem.returnDeposit, VotingSystem.slashDeposit]
      rcases lifecycle.voting.closeDeposit_cases proposalId with refused | ⟨proposal, found, done⟩
      · rw [refused]
        exact sound
      · rw [done]
        exact sound.write found rfl Iff.rfl

/-- In a run that tallies no executed proposal, each proposal takes effect once at most,
and one that was executed stays so. -/
theorem orderly_run_once {voting : VotingSystem} {calls : List VotingCall} {lifecycle : Lifecycle}
    (run : Run (OrderlyStep secp) (start voting) calls lifecycle) : lifecycle.Once := by
  have sound : lifecycle.Sound := by
    apply run.invariant (motive := Sound)
    · exact start_sound voting
    · intro lifecycle call next sound step
      exact orderly_step_sound sound step
  exact sound.once

/-- A voting system that asks for a single vote, with a treasury of a hundred. -/
def paying : VotingSystem :=
  { VotingSystem.new with
    defaultQuorum := 1
    treasury := some ((Treasury.new 2 0).deposit 100 [9] .uncategorized 0).2 }

/-- A proposal to pay ten is created, passes and is executed. -/
def paidOnce : List VotingCall :=
  [.createProposal [1] .treasurySpending "grant" "ten" [10, 0, 0, 0, 0, 0, 0, 0, 1, 7] 0,
   .updateBlockHeight 100, SampleVoter.castYes, .updateBlockHeight 10101, .tallyVotes 1,
   .updateBlockHeight 11101, .executeProposal 1]

/-- It is tallied again, passes again and is executed again. -/
def paidTwice : List VotingCall :=
  paidOnce ++ [.tallyVotes 1, .updateBlockHeight 12101, .executeProposal 1]

/-- The treasury pays the proposal twice. -/
theorem run_not_once :
    ¬ ∀ (secp : Secp256k1) (voting : VotingSystem) (calls : List VotingCall) (lifecycle : Lifecycle),
      calls.foldlM (after secp) (start voting) = some lifecycle → lifecycle.Once := by
  intro claim
  have twice : (paidTwice.foldlM (after SampleVoter.library) (start paying)).map Lifecycle.paid =
      some [0, 0] := by decide +kernel
  obtain ⟨lifecycle, run, paid⟩ := Option.map_eq_some_iff.mp twice
  have once := (claim SampleVoter.library paying paidTwice lifecycle run).paid
  rw [paid] at once
  exact absurd once (by decide)

theorem orderly_run_once_paid :
    ∃ lifecycle, paidOnce.foldlM (after SampleVoter.library) (start paying) = some lifecycle ∧
      lifecycle.paid = [0] ∧ lifecycle.Once := by
  have once : (paidOnce.foldlM (after SampleVoter.library) (start paying)).map Lifecycle.paid =
      some [0] := by decide +kernel
  obtain ⟨lifecycle, done, paid⟩ := Option.map_eq_some_iff.mp once
  have each : EachInTurn (after SampleVoter.library) Orderly (start paying) paidOnce := by
    decide +kernel
  have run : Run (OrderlyStep SampleVoter.library) (start paying) paidOnce lifecycle :=
    each.extend .start done
  exact ⟨lifecycle, done, paid, orderly_run_once run⟩

end Lifecycle

end Parthenon.Governance
