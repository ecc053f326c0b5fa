import Parthenon.Crypto.Schnorr
import Parthenon.Governance.Boule
import Parthenon.Governance.Params
import Parthenon.Governance.Treasury
import Parthenon.Governance.VotingPower

namespace Parthenon.Governance

open Library Crypto Std

/-! # Voting

Proposals are voted on, tallied and executed.  What a voting system has attached is
part of its state.
-/

inductive ProposalType
  | parameterChange | treasurySpending | protocolUpgrade | general | constitutional | emergency
deriving DecidableEq, Repr

def ProposalType.toByte : ProposalType → UInt8
  | .parameterChange => 0
  | .treasurySpending => 1
  | .protocolUpgrade => 2
  | .general => 3
  | .constitutional => 4
  | .emergency => 5

inductive ProposalStatus
  | pending | active | passed | rejected | executed | expired
deriving DecidableEq, Repr

inductive VoteChoice
  | yes | no | abstain | veto
deriving DecidableEq, Repr

def VoteChoice.toByte : VoteChoice → UInt8
  | .yes => 0
  | .no => 1
  | .abstain => 2
  | .veto => 3

structure Proposal where
  proposalId : UInt64
  type : ProposalType
  status : ProposalStatus
  title : String
  description : String
  proposer : Bytes
  creationTime : UInt64
  votingStart : UInt64
  votingEnd : UInt64
  executionTime : UInt64
  executionData : Bytes
  yesVotes : UInt64
  noVotes : UInt64
  abstainVotes : UInt64
  vetoVotes : UInt64
  quorumRequirement : UInt64
  approvalThreshold : UInt64
  vetoThresholdBps : UInt64
  depositAmount : UInt64
  depositReturned : Bool
  bouleApproved : Bool
deriving DecidableEq, Repr

structure Vote where
  proposalId : UInt64
  voter : Bytes
  choice : VoteChoice
  votingPower : UInt64
  timestamp : UInt64
  signature : Bytes
deriving DecidableEq, Repr

structure VotingSystem where
  nextProposalId : UInt64
  currentBlockHeight : UInt64
  votingPeriod : UInt64
  defaultQuorum : UInt64
  defaultThreshold : UInt64
  vetoThresholdBps : UInt64
  antiWhale : Option AntiWhaleGuard
  boule : Option Boule
  requireBouleApproval : Bool
  snapshotRegistry : Option SnapshotRegistry
  stakingRegistry : Option StakingRegistry
  balanceRegistry : Option BalanceVotingRegistry
  govParams : Option GovernanceParams
  treasury : Option Treasury
  executionHandler : Option (Proposal → Bool)
  proposals : ExtTreeMap UInt64 Proposal compare
  votes : ExtTreeMap UInt64 (List Vote) compare

namespace VotingSystem

def new : VotingSystem where
  nextProposalId := 1
  currentBlockHeight := 0
  votingPeriod := 10000
  defaultQuorum := 1000000
  defaultThreshold := 50
  vetoThresholdBps := 3334
  antiWhale := none
  boule := none
  requireBouleApproval := false
  snapshotRegistry := none
  stakingRegistry := none
  balanceRegistry := none
  govParams := none
  treasury := none
  executionHandler := none
  proposals := ∅
  votes := ∅

def updateBlockHeight (voting : VotingSystem) (height : UInt64) : VotingSystem :=
  { voting with currentBlockHeight := height }

def setVetoThreshold (voting : VotingSystem) (bps : UInt64) : VotingSystem :=
  { voting with vetoThresholdBps := bps }

/-! ## Creation -/

/-- The proposal that `CreateProposal` stores.  It is approved when screening is off. -/
def newProposal (voting : VotingSystem) (proposer : Bytes) (type : ProposalType)
    (title description : String) (executionData : Bytes) (depositAmount : UInt64) : Proposal where
  proposalId := voting.nextProposalId
  type := type
  status := .pending
  title := title
  description := description
  proposer := proposer
  creationTime := voting.currentBlockHeight
  votingStart := voting.currentBlockHeight + 100
  votingEnd := voting.currentBlockHeight + 100 + voting.votingPeriod
  executionTime := 0
  executionData := executionData
  yesVotes := 0
  noVotes := 0
  abstainVotes := 0
  vetoVotes := 0
  quorumRequirement := voting.defaultQuorum
  approvalThreshold := if type = .constitutional then 66 else voting.defaultThreshold
  vetoThresholdBps := 3334
  depositAmount := depositAmount
  depositReturned := false
  bouleApproved := !voting.requireBouleApproval

/-- The powers of a snapshot: of the balances, or else of the stakes. -/
def votingPowers (voting : VotingSystem) : List (Bytes × UInt64) :=
  match voting.balanceRegistry, voting.stakingRegistry with
  | some balances, _ => balances.getAllVotingPowers
  | none, some stakes => stakes.getAllVotingPowers
  | none, none => []

/-- The registry after a proposal was created.  No snapshot is taken of no powers. -/
def snapshotted (voting : VotingSystem) (proposal : Proposal) : Option SnapshotRegistry :=
  voting.snapshotRegistry.map fun registry =>
    if voting.votingPowers.isEmpty then registry
    else (registry.createSnapshot proposal.proposalId proposal.votingStart voting.votingPowers).2

def createProposal (voting : VotingSystem) (proposer : Bytes) (type : ProposalType)
    (title description : String) (executionData : Bytes) (depositAmount : UInt64) :
    UInt64 × VotingSystem :=
  let proposal := voting.newProposal proposer type title description executionData depositAmount
  (proposal.proposalId,
    { voting with
      nextProposalId := voting.nextProposalId + 1
      proposals := voting.proposals.insert proposal.proposalId proposal
      snapshotRegistry := voting.snapshotted proposal })

/-! ## Votes -/

def getProposalVotes (voting : VotingSystem) (proposalId : UInt64) : List Vote :=
  voting.votes.getD proposalId []

def hasVoted (voting : VotingSystem) (proposalId : UInt64) (voter : Bytes) : Bool :=
  (voting.getProposalVotes proposalId).any (·.voter == voter)

/-- Whether a proposal may be voted on.  An approval that the Boule reports is kept. -/
def screen (voting : VotingSystem) (proposalId : UInt64) (proposal : Proposal) : Bool × Proposal :=
  if !voting.requireBouleApproval then (true, proposal)
  else if proposal.bouleApproved then (true, proposal)
  else match voting.boule with
  | none => (false, proposal)
  | some boule =>
      if boule.isProposalApproved proposalId then (true, { proposal with bouleApproved := true })
      else (false, proposal)

/-- What a voter signs: the power is the one the voter claims. -/
def votePayload (proposalId : UInt64) (voter : Bytes) (choice : VoteChoice) (votingPower : UInt64) :
    Bytes :=
  littleEndian 8 proposalId.toNat ++ voter ++ [choice.toByte] ++ littleEndian 8 votingPower.toNat

/-- The sizes and the signature of a vote. -/
def verifyVote (secp : Secp256k1) (proposalId : UInt64) (voter : Bytes) (choice : VoteChoice)
    (votingPower : UInt64) (signature : Bytes) : Bool :=
  match FixedBytes.ofBytes? Schnorr.signatureSize signature,
    FixedBytes.ofBytes? Schnorr.publicKeySize voter with
  | some schnorrSig, some voterPubkey =>
      Schnorr.verify secp voterPubkey
        (SHA256.hash256 (votePayload proposalId voter choice votingPower)) schnorrSig
  | _, _ => false

/-- The power of a snapshot comes before the one that is claimed.  `none` is a voter
without power. -/
def snapshotPower (voting : VotingSystem) (proposalId : UInt64) (voter : Bytes)
    (votingPower : UInt64) : Option UInt64 :=
  match voting.snapshotRegistry with
  | none => some votingPower
  | some registry =>
      if registry.hasSnapshot proposalId then
        let power := registry.getSnapshotPower proposalId voter
        if power = 0 then none else some power
      else some votingPower

/-- The power that is counted.  `none` is a division by zero of the guard. -/
def effectivePower (voting : VotingSystem) (votingPower : UInt64) : Option UInt64 :=
  match voting.antiWhale with
  | none => some votingPower
  | some guard => guard.computeEffectivePower votingPower

end VotingSystem

/-- A vote is added to the tally of its choice, and the first one makes the proposal active. -/
def Proposal.count (proposal : Proposal) (choice : VoteChoice) (power : UInt64) : Proposal :=
  let counted := match choice with
    | .yes => { proposal with yesVotes := proposal.yesVotes + power }
    | .no => { proposal with noVotes := proposal.noVotes + power }
    | .abstain => { proposal with abstainVotes := proposal.abstainVotes + power }
    | .veto => { proposal with vetoVotes := proposal.vetoVotes + power }
  if counted.status = .pending then { counted with status := .active } else counted

namespace VotingSystem

def setProposal (voting : VotingSystem) (proposalId : UInt64) (proposal : Proposal) : VotingSystem :=
  { voting with proposals := voting.proposals.insert proposalId proposal }

/-- A vote that is recorded and counted. -/
def recordVote (voting : VotingSystem) (proposalId : UInt64) (proposal : Proposal) (voter : Bytes)
    (choice : VoteChoice) (power : UInt64) (signature : Bytes) : VotingSystem :=
  let vote : Vote :=
    { proposalId, voter, choice, votingPower := power
      timestamp := voting.currentBlockHeight, signature }
  { voting.setProposal proposalId (proposal.count choice power) with
    votes := voting.votes.insert proposalId (voting.getProposalVotes proposalId ++ [vote]) }

def castVote (secp : Secp256k1) (voting : VotingSystem) (proposalId : UInt64) (voter : Bytes)
    (choice : VoteChoice) (votingPower : UInt64) (signature : Bytes) : Option (Bool × VotingSystem) :=
  match voting.proposals[proposalId]? with
  | none => some (false, voting)
  | some stored =>
      let (approved, proposal) := voting.screen proposalId stored
      let screened := voting.setProposal proposalId proposal
      if !approved then some (false, screened)
      else if voting.currentBlockHeight < proposal.votingStart ∨
          voting.currentBlockHeight > proposal.votingEnd then some (false, screened)
      else if voting.hasVoted proposalId voter then some (false, screened)
      else if !verifyVote secp proposalId voter choice votingPower signature then
        some (false, screened)
      else match voting.snapshotPower proposalId voter votingPower with
      | none => some (false, screened)
      | some power => do
          let effective ← voting.effectivePower power
          some (true, screened.recordVote proposalId proposal voter choice effective signature)

end VotingSystem

/-! ## Tally -/

namespace Proposal

/-- All four tallies, added up on 64 bits. -/
def totalVotes (proposal : Proposal) : UInt64 :=
  proposal.yesVotes + proposal.noVotes + proposal.abstainVotes + proposal.vetoVotes

/-- Whether the vetoes are above their share.  A product that does not fit counts as the
largest number. -/
def isVetoed (proposal : Proposal) (vetoThresholdBps : UInt64) : Bool :=
  let effectiveThreshold :=
    if proposal.vetoThresholdBps > 0 then proposal.vetoThresholdBps else vetoThresholdBps
  let lhs :=
    if proposal.vetoVotes ≤ 0xffffffffffffffff / 10000 then proposal.vetoVotes * 10000
    else 0xffffffffffffffff
  let rhs :=
    if effectiveThreshold = 0 ∨ proposal.totalVotes ≤ 0xffffffffffffffff / effectiveThreshold then
      proposal.totalVotes * effectiveThreshold
    else 0xffffffffffffffff
  lhs > rhs

/-- The share of yes among yes and no, in percent. -/
def approvalPercent (proposal : Proposal) : UInt64 :=
  let approvalVotes := proposal.yesVotes + proposal.noVotes
  if proposal.yesVotes ≤ 0xffffffffffffffff / 100 then proposal.yesVotes * 100 / approvalVotes
  else
    let scaledDenom := approvalVotes / 100
    let percent := if scaledDenom > 0 then proposal.yesVotes / scaledDenom else 100
    if percent > 100 then 100 else percent

/-- The proposal after its votes were tallied.  The status it has is not asked for. -/
def tally (proposal : Proposal) (vetoThresholdBps currentBlockHeight : UInt64) : Proposal :=
  if proposal.totalVotes < proposal.quorumRequirement then { proposal with status := .rejected }
  else if proposal.isVetoed vetoThresholdBps then { proposal with status := .rejected }
  else if proposal.yesVotes + proposal.noVotes = 0 then { proposal with status := .rejected }
  else if proposal.approvalPercent ≥ proposal.approvalThreshold then
    { proposal with status := .passed, executionTime := currentBlockHeight + 1000 }
  else { proposal with status := .rejected }

end Proposal

def VotingSystem.tallyVotes (voting : VotingSystem) (proposalId : UInt64) : Bool × VotingSystem :=
  match voting.proposals[proposalId]? with
  | none => (false, voting)
  | some proposal =>
      if voting.currentBlockHeight ≤ proposal.votingEnd then (false, voting)
      else
        (true, voting.setProposal proposalId
          (proposal.tally voting.vetoThresholdBps voting.currentBlockHeight))

/-! ## Execution -/

namespace VotingSystem

def readLE64 (bytes : Bytes) : UInt64 := UInt64.ofNat (ofLittleEndian (bytes.take 8))

/-- The change of a parameter: a length, a key and a value. -/
def dispatchParameterChange (voting : VotingSystem) (proposal : Proposal) : Option GovernanceParams :=
  voting.govParams.map fun govParams =>
    let data := proposal.executionData
    let keyLen := (data.getD 0 0).toNat
    if data.length ≥ 10 ∧ 1 + keyLen + 8 ≤ data.length then
      (govParams.updateParam ((data.drop 1).take keyLen) (readLE64 (data.drop (1 + keyLen)))
        proposal.proposalId voting.currentBlockHeight).2
    else govParams

/-- A payment of the treasury: an amount, a length and a recipient. -/
def dispatchTreasurySpending (voting : VotingSystem) (proposal : Proposal) : Option Treasury :=
  voting.treasury.map fun treasury =>
    let data := proposal.executionData
    let amount := readLE64 data
    let addrLen := (data.getD 8 0).toNat
    if data.length ≥ 10 ∧ 9 + addrLen ≤ data.length ∧ amount > 0 then
      (treasury.spend amount ((data.drop 9).take addrLen) proposal.proposalId .uncategorized
        "proposal execution" voting.currentBlockHeight).2
    else treasury

/-- What is written behind the execution data of the other types. -/
def executionMark (voting : VotingSystem) (type : ProposalType) : Bytes :=
  if type = .emergency then
    type.toByte :: littleEndian 8 (voting.currentBlockHeight + 3).toNat
  else [type.toByte]

/-- The built-in execution, by type. -/
def dispatch (voting : VotingSystem) (proposal : Proposal) : VotingSystem × Proposal :=
  match proposal.type with
  | .parameterChange => ({ voting with govParams := voting.dispatchParameterChange proposal }, proposal)
  | .treasurySpending => ({ voting with treasury := voting.dispatchTreasurySpending proposal }, proposal)
  | type =>
      (voting, { proposal with executionData := proposal.executionData ++ voting.executionMark type })

def executeProposal (voting : VotingSystem) (proposalId : UInt64) : Bool × VotingSystem :=
  match voting.proposals[proposalId]? with
  | none => (false, voting)
  | some proposal =>
      if proposal.status ≠ .passed then (false, voting)
      else if voting.currentBlockHeight < proposal.executionTime then (false, voting)
      else match voting.executionHandler with
      | some handler =>
          if !handler proposal then (false, voting)
          else (true, voting.setProposal proposalId { proposal with status := .executed })
      | none =>
          let (dispatched, marked) := voting.dispatch proposal
          (true, dispatched.setProposal proposalId { marked with status := .executed })

def markBouleApproved (voting : VotingSystem) (proposalId : UInt64) : Bool × VotingSystem :=
  match voting.proposals[proposalId]? with
  | none => (false, voting)
  | some proposal => (true, voting.setProposal proposalId { proposal with bouleApproved := true })

/-- Returning and slashing a deposit mark it the same way. -/
def closeDeposit (voting : VotingSystem) (proposalId : UInt64) : Bool × VotingSystem :=
  match voting.proposals[proposalId]? with
  | none => (false, voting)
  | some proposal =>
      if proposal.depositReturned then (false, voting)
      else (true, voting.setProposal proposalId { proposal with depositReturned := true })

def returnDeposit (voting : VotingSystem) (proposalId : UInt64) : Bool × VotingSystem :=
  voting.closeDeposit proposalId

def slashDeposit (voting : VotingSystem) (proposalId : UInt64) : Bool × VotingSystem :=
  voting.closeDeposit proposalId

end VotingSystem

end Parthenon.Governance
