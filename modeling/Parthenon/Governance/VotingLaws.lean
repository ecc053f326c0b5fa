import Parthenon.Governance.Voting
import Parthenon.Library.Runs

namespace Parthenon.Governance

open Library Crypto Std

/-! # What the calls of a voting system do -/

namespace Proposal

variable (proposal : Proposal)

/-- A vote changes the tallies and the status. -/
theorem count_frame (choice : VoteChoice) (power : UInt64) :
    ∃ status yesVotes noVotes abstainVotes vetoVotes, proposal.count choice power =
      { proposal with status, yesVotes, noVotes, abstainVotes, vetoVotes } := by
  unfold count
  cases choice
  all_goals
    dsimp only
    split
    · exact ⟨_, _, _, _, _, rfl⟩
    · exact ⟨_, _, _, _, _, rfl⟩

/-- A tally passes or rejects the proposal, and changes at most the execution time besides. -/
theorem tally_frame (vetoThresholdBps currentBlockHeight : UInt64) :
    ∃ status executionTime, status ≠ .executed ∧
      proposal.tally vetoThresholdBps currentBlockHeight =
        { proposal with status, executionTime } := by
  have rejects : ∃ status executionTime, status ≠ .executed ∧
      ({ proposal with status := .rejected } : Proposal) =
        { proposal with status, executionTime } := ⟨.rejected, _, by decide, rfl⟩
  unfold tally
  split
  · exact rejects
  split
  · exact rejects
  split
  · exact rejects
  split
  · exact ⟨.passed, _, by decide, rfl⟩
  · exact rejects

end Proposal

/-- A call of a voting system. -/
inductive VotingCall
  | createProposal (proposer : Bytes) (type : ProposalType) (title description : String)
      (executionData : Bytes) (depositAmount : UInt64)
  | castVote (proposalId : UInt64) (voter : Bytes) (choice : VoteChoice) (votingPower : UInt64)
      (signature : Bytes)
  | tallyVotes (proposalId : UInt64)
  | executeProposal (proposalId : UInt64)
  | updateBlockHeight (height : UInt64)
  | markBouleApproved (proposalId : UInt64)
  | returnDeposit (proposalId : UInt64)
  | slashDeposit (proposalId : UInt64)

namespace VotingSystem

/-- `none` is a call without a meaning. -/
def apply (secp : Secp256k1) (voting : VotingSystem) : VotingCall → Option VotingSystem
  | .createProposal proposer type title description executionData depositAmount =>
      some (voting.createProposal proposer type title description executionData depositAmount).2
  | .castVote proposalId voter choice votingPower signature =>
      (voting.castVote secp proposalId voter choice votingPower signature).map Prod.snd
  | .tallyVotes proposalId => some (voting.tallyVotes proposalId).2
  | .executeProposal proposalId => some (voting.executeProposal proposalId).2
  | .updateBlockHeight height => some (voting.updateBlockHeight height)
  | .markBouleApproved proposalId => some (voting.markBouleApproved proposalId).2
  | .returnDeposit proposalId => some (voting.returnDeposit proposalId).2
  | .slashDeposit proposalId => some (voting.slashDeposit proposalId).2

variable {secp : Secp256k1} (voting : VotingSystem)

/-- Screening may keep an approval, and nothing else. -/
theorem screen_cases (proposalId : UInt64) (proposal : Proposal) :
    (voting.screen proposalId proposal).2 = proposal ∨
    voting.requireBouleApproval = true ∧ proposal.bouleApproved = false ∧
      (∃ boule, voting.boule = some boule ∧ boule.isProposalApproved proposalId = true) ∧
      (voting.screen proposalId proposal).2 = { proposal with bouleApproved := true } := by
  unfold screen
  cases required : voting.requireBouleApproval with
  | false => exact .inl rfl
  | true =>
      cases kept : proposal.bouleApproved with
      | true => exact .inl rfl
      | false =>
          cases attached : voting.boule with
          | none => exact .inl rfl
          | some boule =>
              cases approved : boule.isProposalApproved proposalId with
              | false => exact .inl (by simp [approved])
              | true => exact .inr ⟨rfl, rfl, ⟨boule, rfl, approved⟩, by simp [approved]⟩

/-- What an accepted vote has passed. -/
structure Accepts (secp : Secp256k1) (voting : VotingSystem) (proposalId : UInt64) (stored : Proposal)
    (voter : Bytes) (choice : VoteChoice) (votingPower effective : UInt64) (signature : Bytes) :
    Prop where
  screened : (voting.screen proposalId stored).1 = true
  opened : stored.votingStart ≤ voting.currentBlockHeight ∧
    voting.currentBlockHeight ≤ stored.votingEnd
  first : voting.hasVoted proposalId voter = false
  signed : verifyVote secp proposalId voter choice votingPower signature = true
  powered : ∃ power, voting.snapshotPower proposalId voter votingPower = some power ∧
    voting.effectivePower power = some effective

/-- A vote is refused, keeping at most an approval, or it passed every check and is recorded. -/
theorem castVote_cases {proposalId : UInt64} {voter : Bytes} {choice : VoteChoice}
    {votingPower : UInt64} {signature : Bytes} {result : Bool} {next : VotingSystem}
    (cast_ : voting.castVote secp proposalId voter choice votingPower signature = some (result, next)) :
    result = false ∧ next = voting ∨
    ∃ stored, voting.proposals[proposalId]? = some stored ∧
      (result = false ∧
          next = voting.setProposal proposalId (voting.screen proposalId stored).2 ∨
        ∃ effective, result = true ∧
          voting.Accepts secp proposalId stored voter choice votingPower effective signature ∧
          next = (voting.setProposal proposalId (voting.screen proposalId stored).2).recordVote
            proposalId (voting.screen proposalId stored).2 voter choice effective signature) := by
  unfold castVote at cast_
  cases found : voting.proposals[proposalId]? with
  | none =>
      simp only [found] at cast_
      cases cast_
      exact .inl ⟨rfl, rfl⟩
  | some stored =>
      refine .inr ⟨stored, rfl, ?_⟩
      simp only [found] at cast_
      have start : (voting.screen proposalId stored).2.votingStart = stored.votingStart := by
        rcases voting.screen_cases proposalId stored with same | ⟨-, -, -, same⟩ <;> rw [same]
      have end_ : (voting.screen proposalId stored).2.votingEnd = stored.votingEnd := by
        rcases voting.screen_cases proposalId stored with same | ⟨-, -, -, same⟩ <;> rw [same]
      cases approved : (voting.screen proposalId stored).1 with
      | false =>
          simp only [approved, Bool.not_false, if_true] at cast_
          cases cast_
          exact .inl ⟨rfl, rfl⟩
      | true =>
          simp only [approved, Bool.not_true, Bool.false_eq_true, if_false, start, end_] at cast_
          split at cast_
          · cases cast_
            exact .inl ⟨rfl, rfl⟩
          rename_i inside
          split at cast_
          · cases cast_
            exact .inl ⟨rfl, rfl⟩
          rename_i first
          split at cast_
          · cases cast_
            exact .inl ⟨rfl, rfl⟩
          rename_i signed
          split at cast_
          · cases cast_
            exact .inl ⟨rfl, rfl⟩
          rename_i power powered
          obtain ⟨effective, isEffective, cast_⟩ := Option.bind_eq_some_iff.mp cast_
          cases cast_
          refine .inr ⟨effective, rfl, ⟨approved, ?_, ?_, ?_, ⟨power, powered, isEffective⟩⟩, rfl⟩
          · rw [not_or, UInt64.not_lt] at inside
            exact ⟨inside.1, UInt64.not_lt.mp inside.2⟩
          · simpa using first
          · simpa using signed

theorem tallyVotes_cases (proposalId : UInt64) :
    voting.tallyVotes proposalId = (false, voting) ∨
    ∃ proposal, voting.proposals[proposalId]? = some proposal ∧
      proposal.votingEnd < voting.currentBlockHeight ∧
      voting.tallyVotes proposalId =
        (true, voting.setProposal proposalId
          (proposal.tally voting.vetoThresholdBps voting.currentBlockHeight)) := by
  unfold tallyVotes
  cases found : voting.proposals[proposalId]? with
  | none => exact .inl rfl
  | some proposal =>
      by_cases open_ : voting.currentBlockHeight ≤ proposal.votingEnd
      · exact .inl (if_pos open_)
      · exact .inr ⟨proposal, rfl, UInt64.not_le.mp open_, if_neg open_⟩

/-- The built-in execution changes what is attached and the execution data. -/
theorem dispatch_frame (proposal : Proposal) :
    ∃ govParams treasury executionData, voting.dispatch proposal =
      ({ voting with govParams, treasury }, { proposal with executionData }) := by
  unfold dispatch
  split
  · exact ⟨voting.dispatchParameterChange proposal, voting.treasury, proposal.executionData, rfl⟩
  · exact ⟨voting.govParams, voting.dispatchTreasurySpending proposal, proposal.executionData, rfl⟩
  · exact ⟨voting.govParams, voting.treasury, _, rfl⟩

/-- An execution is refused, or it leaves a passed proposal executed and touches no other. -/
theorem executeProposal_cases (proposalId : UInt64) :
    voting.executeProposal proposalId = (false, voting) ∨
    ∃ proposal govParams treasury executionData, voting.proposals[proposalId]? = some proposal ∧
      proposal.status = .passed ∧ proposal.executionTime ≤ voting.currentBlockHeight ∧
      voting.executeProposal proposalId =
        (true, { voting with govParams, treasury }.setProposal proposalId
          { proposal with executionData, status := .executed }) := by
  unfold executeProposal
  split
  · exact .inl rfl
  rename_i proposal found
  split
  · exact .inl rfl
  rename_i passed
  split
  · exact .inl rfl
  rename_i early
  have due : proposal.executionTime ≤ voting.currentBlockHeight := UInt64.not_lt.mp early
  split
  · split
    · exact .inl rfl
    · exact .inr ⟨proposal, voting.govParams, voting.treasury, proposal.executionData, found,
        not_not.mp passed, due, rfl⟩
  · obtain ⟨govParams, treasury, executionData, same⟩ := voting.dispatch_frame proposal
    refine .inr ⟨proposal, govParams, treasury, executionData, found, not_not.mp passed, due, ?_⟩
    rw [same]

theorem closeDeposit_cases (proposalId : UInt64) :
    voting.closeDeposit proposalId = (false, voting) ∨
    ∃ proposal, voting.proposals[proposalId]? = some proposal ∧
      voting.closeDeposit proposalId =
        (true, voting.setProposal proposalId { proposal with depositReturned := true }) := by
  unfold closeDeposit
  cases found : voting.proposals[proposalId]? with
  | none => exact .inl rfl
  | some proposal =>
      cases closed : proposal.depositReturned with
      | true => exact .inl (by simp [closed])
      | false => exact .inr ⟨proposal, rfl, by simp [closed]⟩

theorem markBouleApproved_cases (proposalId : UInt64) :
    voting.markBouleApproved proposalId = (false, voting) ∨
    ∃ proposal, voting.proposals[proposalId]? = some proposal ∧
      voting.markBouleApproved proposalId =
        (true, voting.setProposal proposalId { proposal with bouleApproved := true }) := by
  unfold markBouleApproved
  cases found : voting.proposals[proposalId]? with
  | none => exact .inl rfl
  | some proposal => exact .inr ⟨proposal, rfl, rfl⟩

end VotingSystem

/-! A voter with a key, and the votes for the first proposal that it signed. -/
namespace SampleVoter

def key : PublicKey := .ofNat 32 0xf936e0bc13f10186b0996f8345c831b529529df8854f344910c35892018a30f9

/-- The signature of a yes with the power one. -/
def signature : Signature :=
  .ofNat 64 0x127617ddc48560f62ecbccb9adb38651ac7ff19401a70a6d98740fe07f971aa6b4cb73c8c310408ff265ed9e268c74837a7f0653f54b524ec898594dd5c2277d

/-- The signature of a yes with the power five. -/
def strongSignature : Signature :=
  .ofNat 64 0xa6ba7e5ce882ab315fe19aabe89d646522523a61af910dcf417c759a75157bad68c087b0e371d1675a6ec803b47e6729e2a9946469c660492f6079413c800b31

/-- A library that takes the two signatures for their votes. -/
def library : Secp256k1 where
  Keypair := Empty
  XonlyPubkey := PublicKey
  ecSeckeyVerify _ := false
  keypairCreate _ := none
  keypairXonlyPub := nofun
  xonlyPubkeySerialize pubkey := some pubkey
  xonlyPubkeyParse pubkey := some pubkey
  schnorrsigSign32 _ := nofun
  schnorrsigVerify given message pubkey := pubkey = key &&
    (given = signature && message =
        .ofNat 32 0xbca9f0052cffe657c16d4af1f87eb66e15cb7e99585bbc867e0cac26a21ee576 ||
      given = strongSignature && message =
        .ofNat 32 0x6939d95dc339632236a02e732c4478a96632a4584489bfbcda50b7200da1bb6e)

/-- The vote for the first proposal. -/
def castYes : VotingCall := .castVote 1 key.bytes .yes 1 signature.bytes

end SampleVoter

end Parthenon.Governance
