import Parthenon.Governance.BouleLaws
import Parthenon.Governance.VotingLaws

namespace Parthenon.Governance

open Library Crypto Std

/-! # Screening

A proposal may be voted on when it carries an approval, or the Boule reports one.  The
approval stays when a challenge is raised, and the Boule reports one however a challenge
was resolved.
-/

/-! ## Approvals that are kept -/

namespace VotingSystem

/-- The proposal carries an approval. -/
def Marked (voting : VotingSystem) (proposalId : UInt64) : Prop :=
  ∃ stored ∈ voting.proposals[proposalId]?, stored.bouleApproved = true

instance (voting : VotingSystem) (proposalId : UInt64) : Decidable (voting.Marked proposalId) :=
  inferInstanceAs (Decidable (∃ stored ∈ _, _))

variable {secp : Secp256k1} {voting next : VotingSystem} {proposalId : UInt64}

theorem marked_of_written {id : UInt64} {changed : Proposal} (marked : next.Marked proposalId)
    (written : next.proposals = voting.proposals.insert id changed) :
    id = proposalId ∧ changed.bouleApproved = true ∨ voting.Marked proposalId := by
  obtain ⟨stored, found, approved⟩ := marked
  rw [Option.mem_def, written, getElem?_insert_eq] at found
  by_cases same : id = proposalId
  · rw [if_pos same] at found
    cases found
    exact .inl ⟨same, approved⟩
  · rw [if_neg same] at found
    exact .inr ⟨stored, found, approved⟩

/-- A proposal that is written over with the approval it had. -/
theorem marked_of_kept {id : UInt64} {stored changed : Proposal}
    (found : voting.proposals[id]? = some stored) (marked : next.Marked proposalId)
    (written : next.proposals = voting.proposals.insert id changed)
    (same : changed.bouleApproved = stored.bouleApproved) : voting.Marked proposalId := by
  rcases marked_of_written marked written with ⟨rfl, approved⟩ | before
  · exact ⟨stored, found, same.symm.trans approved⟩
  · exact before

theorem tally_bouleApproved (proposal : Proposal) (vetoThresholdBps currentBlockHeight : UInt64) :
    (proposal.tally vetoThresholdBps currentBlockHeight).bouleApproved = proposal.bouleApproved := by
  obtain ⟨status, executionTime, _, same⟩ := proposal.tally_frame vetoThresholdBps currentBlockHeight
  rw [same]

theorem count_bouleApproved (proposal : Proposal) (choice : VoteChoice) (power : UInt64) :
    (proposal.count choice power).bouleApproved = proposal.bouleApproved := by
  obtain ⟨status, yes, no, abstain, veto, same⟩ := proposal.count_frame choice power
  rw [same]

/-- Screening writes the approval that was there, or that the Boule reports. -/
theorem screen_bouleApproved {stored : Proposal} (found : voting.proposals[proposalId]? = some stored)
    (approved : (voting.screen proposalId stored).2.bouleApproved = true) :
    voting.Marked proposalId ∨
    ∃ boule, voting.boule = some boule ∧ boule.isProposalApproved proposalId = true := by
  rcases voting.screen_cases proposalId stored with same | ⟨-, -, reported, -⟩
  · rw [same] at approved
    exact .inl ⟨stored, found, approved⟩
  · exact .inr reported

/-- A proposal carries an approval after a call if it did before, if the call is the one
for that, or if the Boule reports it. -/
theorem marked_of_apply {call : VotingCall} (applied : voting.apply secp call = some next)
    (required : voting.requireBouleApproval = true) (marked : next.Marked proposalId) :
    voting.Marked proposalId ∨
    call = .markBouleApproved proposalId ∧ (voting.proposals[proposalId]?).isSome = true ∨
    ∃ boule, voting.boule = some boule ∧ boule.isProposalApproved proposalId = true := by
  cases call with
  | createProposal proposer type title description executionData depositAmount =>
      cases applied
      rcases marked_of_written marked rfl with ⟨-, approved⟩ | before
      · change (!voting.requireBouleApproval) = true at approved
        rw [required] at approved
        cases approved
      · exact .inl before
  | castVote id voter choice votingPower signature =>
      rw [apply] at applied
      obtain ⟨⟨result, _⟩, cast_, rfl⟩ := Option.map_eq_some_iff.mp applied
      have screened {stored : Proposal} (found : voting.proposals[id]? = some stored)
          (written : (voting.setProposal id (voting.screen id stored).2).Marked proposalId) :
          voting.Marked proposalId ∨
          ∃ boule, voting.boule = some boule ∧ boule.isProposalApproved proposalId = true := by
        rcases marked_of_written written rfl with ⟨rfl, approved⟩ | before
        · exact screen_bouleApproved found approved
        · exact .inl before
      rcases voting.castVote_cases cast_ with
        ⟨-, rfl⟩ | ⟨stored, found, ⟨-, rfl⟩ | ⟨effective, -, -, rfl⟩⟩
      · exact .inl marked
      · exact (screened found marked).imp_right .inr
      · have written := marked_of_kept ExtTreeMap.getElem?_insert_self marked rfl
          (count_bouleApproved _ choice effective)
        exact (screened found written).imp_right .inr
  | tallyVotes id =>
      cases applied
      left
      rcases voting.tallyVotes_cases id with refused | ⟨proposal, found, -, done⟩
      · rwa [refused] at marked
      · rw [done] at marked
        exact marked_of_kept found marked rfl (tally_bouleApproved proposal _ _)
  | executeProposal id =>
      cases applied
      left
      rcases voting.executeProposal_cases id with
        refused | ⟨proposal, govParams, treasury, executionData, found, -, -, done⟩
      · rwa [refused] at marked
      · rw [done] at marked
        exact marked_of_kept found marked rfl rfl
  | updateBlockHeight height =>
      cases applied
      exact .inl marked
  | markBouleApproved id =>
      cases applied
      rcases voting.markBouleApproved_cases id with refused | ⟨proposal, found, done⟩
      · rw [refused] at marked
        exact .inl marked
      · rw [done] at marked
        rcases marked_of_written marked rfl with ⟨rfl, -⟩ | before
        · exact .inr (.inl ⟨rfl, by rw [found]; rfl⟩)
        · exact .inl before
  | returnDeposit id | slashDeposit id =>
      cases applied
      left
      simp only [returnDeposit, slashDeposit] at marked
      rcases voting.closeDeposit_cases id with refused | ⟨proposal, found, done⟩
      · rwa [refused] at marked
      · rw [done] at marked
        exact marked_of_kept found marked rfl rfl

/-- No call changes whether screening is required. -/
theorem requireBouleApproval_of_apply {call : VotingCall} (applied : voting.apply secp call = some next) :
    next.requireBouleApproval = voting.requireBouleApproval := by
  cases call with
  | createProposal proposer type title description executionData depositAmount =>
      cases applied
      rfl
  | castVote id voter choice votingPower signature =>
      rw [apply] at applied
      obtain ⟨⟨result, _⟩, cast_, rfl⟩ := Option.map_eq_some_iff.mp applied
      rcases voting.castVote_cases cast_ with
        ⟨-, rfl⟩ | ⟨stored, found, ⟨-, rfl⟩ | ⟨effective, -, -, rfl⟩⟩
      · rfl
      · rfl
      · rfl
  | tallyVotes id =>
      cases applied
      rcases voting.tallyVotes_cases id with refused | ⟨proposal, -, -, done⟩
      · rw [refused]
      · rw [done]
        rfl
  | executeProposal id =>
      cases applied
      rcases voting.executeProposal_cases id with
        refused | ⟨proposal, govParams, treasury, executionData, -, -, -, done⟩
      · rw [refused]
      · rw [done]
        rfl
  | updateBlockHeight height =>
      cases applied
      rfl
  | markBouleApproved id =>
      cases applied
      rcases voting.markBouleApproved_cases id with refused | ⟨proposal, -, done⟩
      · rw [refused]
      · rw [done]
        rfl
  | returnDeposit id | slashDeposit id =>
      cases applied
      simp only [returnDeposit, slashDeposit]
      rcases voting.closeDeposit_cases id with refused | ⟨proposal, -, done⟩
      · rw [refused]
      · rw [done]
        rfl

theorem castVote_refused {boule : Boule} (required : voting.requireBouleApproval = true)
    (attached : voting.boule = some boule) (unmarked : ¬ voting.Marked proposalId)
    (unreported : boule.isProposalApproved proposalId = false) (voter : Bytes) (choice : VoteChoice)
    (votingPower : UInt64) (signature : Bytes) :
    (voting.castVote secp proposalId voter choice votingPower signature).map Prod.fst =
      some false := by
  unfold castVote
  cases found : voting.proposals[proposalId]? with
  | none => rfl
  | some stored =>
      have clear : stored.bouleApproved = false := by
        cases approved : stored.bouleApproved with
        | false => rfl
        | true => exact absurd ⟨stored, found, approved⟩ unmarked
      simp only [screen, required, clear, attached, unreported, Bool.not_true, Bool.not_false,
        Bool.false_eq_true, if_false, if_true, Option.map_some]

end VotingSystem

/-! ## The assembly -/

namespace Boule

variable (boule : Boule) (proposalId : UInt64)

/-- The challenge of now was resolved against the proposal. -/
def isUpheld : Bool :=
  (boule.challenges[proposalId]?).any fun challenge => challenge.resolved && challenge.upheld

/-- The approvals of a proposal are enough, whatever was said against it. -/
def Ample : Prop :=
  boule.requiredApprovals ≤ approveCount (boule.getProposalReviews proposalId)

instance : Decidable (boule.Ample proposalId) := inferInstanceAs (Decidable (_ ≤ _))

variable {boule} {proposalId}

theorem hasActiveChallenge_of_found {challenge : GrapheParanomon}
    (found : boule.challenges[proposalId]? = some challenge) :
    boule.hasActiveChallenge proposalId = !challenge.resolved := by
  rw [hasActiveChallenge, found]

theorem isUpheld_of_found {challenge : GrapheParanomon}
    (found : boule.challenges[proposalId]? = some challenge) :
    boule.isUpheld proposalId = (challenge.resolved && challenge.upheld) := by
  rw [isUpheld, found, Option.any_some]

/-- Writing one challenge does not touch those of other proposals. -/
theorem challenges_of_ne (challenge : GrapheParanomon) {other : UInt64} (differs : proposalId ≠ other) :
    hasActiveChallenge { boule with challenges := boule.challenges.insert proposalId challenge } other =
        boule.hasActiveChallenge other ∧
      isUpheld { boule with challenges := boule.challenges.insert proposalId challenge } other =
        boule.isUpheld other := by
  simp only [hasActiveChallenge, isUpheld, getElem?_insert_eq, if_neg differs, and_self]

theorem ample_of_ne (revList : List ProposalReview) {other : UInt64} (differs : proposalId ≠ other) :
    Ample { boule with reviews := boule.reviews.insert proposalId revList } other ↔
      boule.Ample other := by
  simp only [Ample, getProposalReviews, getD_insert_eq, if_neg differs, requiredApprovals]

/-- One more review counts when it approves. -/
theorem ample_append (review : ProposalReview) :
    Ample
        { boule with
          reviews := boule.reviews.insert proposalId
            (boule.getProposalReviews proposalId ++ [review]) } proposalId ↔
      if review.approved then
        boule.requiredApprovals ≤ approveCount (boule.getProposalReviews proposalId) + 1
      else boule.Ample proposalId := by
  have counted : approveCount (boule.getProposalReviews proposalId ++ [review]) =
      if review.approved then approveCount (boule.getProposalReviews proposalId) + 1
      else approveCount (boule.getProposalReviews proposalId) := by
    rw [approveCount, List.foldl_append]
    rfl
  have stored : getProposalReviews
      { boule with
        reviews := boule.reviews.insert proposalId
          (boule.getProposalReviews proposalId ++ [review]) } proposalId =
      boule.getProposalReviews proposalId ++ [review] := by
    rw [getProposalReviews, getD_insert_eq, if_pos rfl]
  rw [Ample, stored, counted]
  split
  · rfl
  · rfl

end Boule

/-- A voting system and its Boule, with the proposals that were found unlawful. -/
structure Ekklesia where
  voting : VotingSystem
  boule : Boule
  upheld : UInt64 → Bool

/-- A call of either. -/
inductive EkklesiaCall
  | voting (call : VotingCall)
  | boule (call : BouleCall)

namespace Ekklesia

def opened (voting : VotingSystem) (boule : Boule) : Ekklesia := ⟨voting, boule, fun _ => false⟩

variable (secp : Secp256k1) (ekklesia : Ekklesia)

/-- The voting system with the Boule attached. -/
def system : VotingSystem := { ekklesia.voting with boule := some ekklesia.boule }

/-- A proposal that was found unlawful once stays so. -/
def after : EkklesiaCall → Option Ekklesia
  | .voting call => (ekklesia.system.apply secp call).map fun voting => { ekklesia with voting }
  | .boule call =>
      (ekklesia.boule.apply call).map fun boule =>
        { ekklesia with boule, upheld := fun id => ekklesia.upheld id || boule.isUpheld id }

/-- Found unlawful, or challenged and not decided. -/
def Unlawful (proposalId : UInt64) : Prop :=
  ekklesia.boule.hasActiveChallenge proposalId = true ∨ ekklesia.upheld proposalId = true

instance (proposalId : UInt64) : Decidable (ekklesia.Unlawful proposalId) :=
  inferInstanceAs (Decidable (_ ∨ _))

/-- The Boule does not report such a proposal approved, and no vote on it is accepted. -/
def Protects : Prop :=
  ∀ proposalId, ekklesia.Unlawful proposalId →
    ekklesia.boule.isProposalApproved proposalId = false ∧
    ∀ voter choice votingPower signature,
      (ekklesia.system.castVote secp proposalId voter choice votingPower signature).map Prod.fst =
        some false

/-- A proposal carries no approval when it is challenged, and gets none by hand while it is
unlawful.  It has too few approvals when it is found unlawful, and afterwards. -/
def Orderly : EkklesiaCall → Prop
  | .voting (.markBouleApproved proposalId) =>
      (ekklesia.voting.proposals[proposalId]?).isSome = true → ¬ ekklesia.Unlawful proposalId
  | .boule (.raiseGrapheParanomon proposalId challenger _ _) =>
      challenger ∈ ekklesia.boule.members → ekklesia.boule.hasActiveChallenge proposalId = false →
        ¬ ekklesia.voting.Marked proposalId
  | .boule (.voteOnGrapheParanomon proposalId councilMember dismiss) =>
      ∀ challenge ∈ ekklesia.boule.challenges[proposalId]?, challenge.resolved = false →
        councilMember ∈ ekklesia.boule.members →
        (challenge.vote dismiss ekklesia.boule.majority).resolved = true →
        (challenge.vote dismiss ekklesia.boule.majority).upheld = true ∨
          ekklesia.upheld proposalId = true →
        ¬ ekklesia.boule.Ample proposalId
  | .boule (.reviewProposal proposalId councilMember approved _ _) =>
      approved = true → councilMember ∈ ekklesia.boule.members →
        (∀ review ∈ ekklesia.boule.getProposalReviews proposalId, review.reviewer ≠ councilMember) →
        ekklesia.upheld proposalId = true →
        ekklesia.boule.hasActiveChallenge proposalId = false →
        Boule.approveCount (ekklesia.boule.getProposalReviews proposalId) + 1 <
          ekklesia.boule.requiredApprovals
  | .boule (.setScreeningRequired required) => required = true
  | _ => True

instance : ∀ call, Decidable (ekklesia.Orderly call)
  | .voting (.markBouleApproved _) => inferInstanceAs (Decidable (_ → _))
  | .boule (.raiseGrapheParanomon ..) => inferInstanceAs (Decidable (_ → _ → _))
  | .boule (.voteOnGrapheParanomon ..) =>
      inferInstanceAs (Decidable (∀ challenge ∈ _, _ → _ → _ → _ → _))
  | .boule (.reviewProposal ..) => inferInstanceAs (Decidable (_ → _ → _ → _ → _ → _))
  | .boule (.setScreeningRequired _) => inferInstanceAs (Decidable (_ = _))
  | .voting (.createProposal ..) | .voting (.castVote ..) | .voting (.tallyVotes _)
  | .voting (.executeProposal _) | .voting (.updateBlockHeight _) | .voting (.returnDeposit _)
  | .voting (.slashDeposit _) | .boule (.registerCitizen ..) | .boule (.setCitizenEligibility ..)
  | .boule (.conductSortition ..) | .boule (.isProposalApproved _) | .boule (.setMinStake _) =>
      inferInstanceAs (Decidable True)

def OrderlyStep (ekklesia : Ekklesia) (call : EkklesiaCall) (next : Ekklesia) : Prop :=
  ekklesia.Orderly call ∧ ekklesia.after secp call = some next

/-- A proposal that is unlawful carries no approval, and one that was found so has too few
reviews, or it is challenged again. -/
structure Lawful : Prop where
  required : ekklesia.voting.requireBouleApproval = true
  screening : ekklesia.boule.screeningRequired = true
  recorded : ∀ proposalId, ekklesia.boule.isUpheld proposalId = true →
    ekklesia.upheld proposalId = true
  unmarked : ∀ proposalId, ekklesia.Unlawful proposalId → ¬ ekklesia.voting.Marked proposalId
  scarce : ∀ proposalId, ekklesia.upheld proposalId = true →
    ekklesia.boule.hasActiveChallenge proposalId = true ∨ ¬ ekklesia.boule.Ample proposalId

variable {secp} {ekklesia}

theorem Lawful.unreported (lawful : ekklesia.Lawful) {proposalId : UInt64}
    (unlawful : ekklesia.Unlawful proposalId) :
    ekklesia.boule.isProposalApproved proposalId = false := by
  cases approved : ekklesia.boule.isProposalApproved proposalId with
  | false => rfl
  | true =>
      rcases Boule.isProposalApproved_iff.mp approved with free | ⟨unchallenged, revList, found, -,
        enough⟩
      · rw [lawful.screening] at free
        cases free
      have ample : ekklesia.boule.Ample proposalId := by
        rw [Boule.Ample, Boule.getProposalReviews_eq, found]
        exact enough
      rcases unlawful with active | upheld
      · rw [unchallenged] at active
        cases active
      rcases lawful.scarce proposalId upheld with active | scarce
      · rw [unchallenged] at active
        cases active
      · exact absurd ample scarce

theorem Lawful.protects (lawful : ekklesia.Lawful) : ekklesia.Protects secp := by
  intro proposalId unlawful
  have unreported := lawful.unreported unlawful
  refine ⟨unreported, ?_⟩
  intro voter choice votingPower signature
  have required : ekklesia.system.requireBouleApproval = true := lawful.required
  exact VotingSystem.castVote_refused required rfl (lawful.unmarked proposalId unlawful)
    unreported voter choice votingPower signature

theorem opened_lawful {voting : VotingSystem} (required : voting.requireBouleApproval = true)
    (councilSize : UInt32) (termBlocks minStake : UInt64) :
    (opened voting (.new councilSize termBlocks minStake true)).Lawful where
  required := required
  screening := rfl
  recorded := by
    intro proposalId upheld
    simp only [Boule.isUpheld, opened, Boule.new, ExtTreeMap.getElem?_empty, Option.any_none,
      Bool.false_eq_true] at upheld
  unmarked := by
    rintro proposalId (active | upheld)
    · simp only [Boule.hasActiveChallenge, opened, Boule.new, ExtTreeMap.getElem?_empty,
        Bool.false_eq_true] at active
    · cases upheld
  scarce := nofun

theorem voting_lawful (lawful : ekklesia.Lawful) {call : VotingCall}
    (orderly : ekklesia.Orderly (.voting call)) {voting : VotingSystem}
    (applied : ekklesia.system.apply secp call = some voting) :
    Lawful { ekklesia with voting } where
  required := (VotingSystem.requireBouleApproval_of_apply applied).trans lawful.required
  screening := lawful.screening
  recorded := lawful.recorded
  unmarked := by
    intro proposalId unlawful marked
    rcases VotingSystem.marked_of_apply applied lawful.required marked with
      before | ⟨rfl, stored⟩ | ⟨boule, attached, reported⟩
    · exact lawful.unmarked proposalId unlawful before
    · exact orderly stored unlawful
    · cases attached
      rw [lawful.unreported unlawful] at reported
      cases reported
  scarce := lawful.scarce

/-- What a call of the Boule has to keep. -/
theorem Lawful.step (lawful : ekklesia.Lawful) {boule : Boule}
    (screening : boule.screeningRequired = true)
    (unmarked : ∀ proposalId, boule.hasActiveChallenge proposalId = true ∨
      boule.isUpheld proposalId = true →
      ekklesia.Unlawful proposalId ∨ ¬ ekklesia.voting.Marked proposalId)
    (scarce : ∀ proposalId, ekklesia.upheld proposalId = true ∨ boule.isUpheld proposalId = true →
      boule.hasActiveChallenge proposalId = true ∨ ¬ boule.Ample proposalId) :
    Lawful { ekklesia with boule, upheld := fun id => ekklesia.upheld id || boule.isUpheld id } where
  required := lawful.required
  screening := screening
  recorded := by
    intro proposalId upheld
    exact Bool.or_eq_true_iff.mpr (.inr upheld)
  unmarked := by
    intro proposalId unlawful marked
    have here : ekklesia.Unlawful proposalId ∨ ¬ ekklesia.voting.Marked proposalId := by
      rcases unlawful with active | upheld
      · exact unmarked proposalId (.inl active)
      rcases Bool.or_eq_true_iff.mp upheld with before | upheld
      · exact .inl (.inr before)
      · exact unmarked proposalId (.inr upheld)
    rcases here with before | clear
    · exact lawful.unmarked proposalId before marked
    · exact clear marked
  scarce := by
    intro proposalId upheld
    exact scarce proposalId (Bool.or_eq_true_iff.mp upheld)

/-- A Boule with the reviews and the challenges of before. -/
theorem Lawful.unrelated (lawful : ekklesia.Lawful) (minStake : UInt64) {screeningRequired : Bool}
    (screening : screeningRequired = true) (citizens : List Citizen) (council : List CouncilMember)
    {boule : Boule}
    (same : boule = { ekklesia.boule with minStake, screeningRequired, citizens, council }) :
    Lawful
      { ekklesia with boule, upheld := fun id => ekklesia.upheld id || boule.isUpheld id } := by
  subst same
  apply lawful.step
  · exact screening
  · intro proposalId unlawful
    exact .inl (unlawful.imp_right (lawful.recorded proposalId))
  · intro proposalId upheld
    exact lawful.scarce proposalId (upheld.elim id (lawful.recorded proposalId))

theorem Lawful.idle (lawful : ekklesia.Lawful) :
    Lawful
      { ekklesia with
        upheld := fun id => ekklesia.upheld id || ekklesia.boule.isUpheld id } :=
  lawful.unrelated ekklesia.boule.minStake lawful.screening _ _ rfl

theorem review_lawful (lawful : ekklesia.Lawful) {proposalId : UInt64} {councilMember : Bytes}
    {approved : Bool} {rationale : String} {blockHeight : UInt64}
    (orderly : ekklesia.Orderly
      (.boule (.reviewProposal proposalId councilMember approved rationale blockHeight)))
    {boule : Boule}
    (applied : ekklesia.boule.apply
      (.reviewProposal proposalId councilMember approved rationale blockHeight) = some boule) :
    Lawful
      { ekklesia with boule, upheld := fun id => ekklesia.upheld id || boule.isUpheld id } := by
  cases applied
  rcases ekklesia.boule.reviewProposal_cases proposalId councilMember approved rationale
    blockHeight with refused | ⟨isMember, first, done⟩
  · rw [refused]
    exact lawful.idle
  rw [done]
  apply lawful.step
  · exact lawful.screening
  · intro other unlawful
    exact .inl (unlawful.imp_right (lawful.recorded other))
  · intro other upheld
    have before : ekklesia.upheld other = true := upheld.elim id (lawful.recorded other)
    rcases lawful.scarce other before with active | scarce
    · exact .inl active
    cases active : ekklesia.boule.hasActiveChallenge other with
    | true => exact .inl active
    | false =>
        right
        by_cases same : proposalId = other
        · subst same
          rw [Boule.ample_append]
          split
          · rename_i approves
            exact UInt64.not_le.mpr (orderly approves isMember first before active)
          · exact scarce
        · rw [Boule.ample_of_ne _ same]
          exact scarce

/-- A challenge is written that leaves its own proposal safe. -/
theorem Lawful.challenge (lawful : ekklesia.Lawful) {proposalId : UInt64} (written : GrapheParanomon)
    (unmarked : ekklesia.Unlawful proposalId ∨ ¬ ekklesia.voting.Marked proposalId)
    (scarce : written.resolved = true →
      written.upheld = true ∨ ekklesia.upheld proposalId = true →
      ¬ ekklesia.boule.Ample proposalId) {boule : Boule}
    (same : boule = { ekklesia.boule with
      challenges := ekklesia.boule.challenges.insert proposalId written }) :
    Lawful
      { ekklesia with boule, upheld := fun id => ekklesia.upheld id || boule.isUpheld id } := by
  subst same
  apply lawful.step
  · exact lawful.screening
  · intro other unlawful
    by_cases same : proposalId = other
    · subst same
      exact unmarked
    · obtain ⟨active, upheld⟩ := Boule.challenges_of_ne written same
      dsimp only at unlawful
      rw [active, upheld] at unlawful
      exact .inl (unlawful.imp_right (lawful.recorded other))
  · intro other upheld
    by_cases same : proposalId = other
    · subst same
      rw [Boule.hasActiveChallenge_of_found ExtTreeMap.getElem?_insert_self]
      rw [Boule.isUpheld_of_found ExtTreeMap.getElem?_insert_self] at upheld
      cases resolved : written.resolved with
      | false => exact .inl rfl
      | true =>
          rw [resolved, Bool.true_and] at upheld
          exact .inr (scarce resolved upheld.symm)
    · obtain ⟨active, sameUpheld⟩ := Boule.challenges_of_ne written same
      rw [sameUpheld] at upheld
      rw [active]
      exact lawful.scarce other (upheld.elim id (lawful.recorded other))

theorem raise_lawful (lawful : ekklesia.Lawful) {proposalId : UInt64} {challenger : Bytes}
    {grounds : String} {blockHeight : UInt64}
    (orderly : ekklesia.Orderly
      (.boule (.raiseGrapheParanomon proposalId challenger grounds blockHeight)))
    {boule : Boule}
    (applied : ekklesia.boule.apply
      (.raiseGrapheParanomon proposalId challenger grounds blockHeight) = some boule) :
    Lawful
      { ekklesia with boule, upheld := fun id => ekklesia.upheld id || boule.isUpheld id } := by
  cases applied
  rcases ekklesia.boule.raiseGrapheParanomon_cases proposalId challenger grounds blockHeight with
    refused | ⟨isMember, unchallenged, done⟩
  · rw [refused]
    exact lawful.idle
  rw [done]
  have clear := orderly isMember unchallenged
  exact lawful.challenge (Boule.newChallenge proposalId challenger grounds blockHeight) (.inr clear)
    nofun rfl

theorem vote_lawful (lawful : ekklesia.Lawful) {proposalId : UInt64} {councilMember : Bytes}
    {dismiss : Bool}
    (orderly : ekklesia.Orderly (.boule (.voteOnGrapheParanomon proposalId councilMember dismiss)))
    {boule : Boule}
    (applied : ekklesia.boule.apply (.voteOnGrapheParanomon proposalId councilMember dismiss) =
      some boule) :
    Lawful
      { ekklesia with boule, upheld := fun id => ekklesia.upheld id || boule.isUpheld id } := by
  cases applied
  rcases ekklesia.boule.voteOnGrapheParanomon_cases proposalId councilMember dismiss with
    refused | ⟨challenge, isMember, found, open_, done⟩
  · rw [refused]
    exact lawful.idle
  rw [done]
  have challenged : ekklesia.boule.hasActiveChallenge proposalId = true := by
    rw [Boule.hasActiveChallenge_of_found found, open_]
    rfl
  have scarce := orderly challenge found open_ isMember
  exact lawful.challenge (challenge.vote dismiss ekklesia.boule.majority) (.inl (.inl challenged))
    scarce rfl

theorem orderly_step_lawful (lawful : ekklesia.Lawful) {call : EkklesiaCall} {next : Ekklesia}
    (step : OrderlyStep secp ekklesia call next) : next.Lawful := by
  obtain ⟨orderly, taken⟩ := step
  cases call with
  | voting call =>
      obtain ⟨voting, applied, rfl⟩ := Option.map_eq_some_iff.mp taken
      exact voting_lawful lawful orderly applied
  | boule call =>
      obtain ⟨boule, applied, rfl⟩ := Option.map_eq_some_iff.mp taken
      have unrelated
          (noReview : ∀ proposalId councilMember approved rationale blockHeight,
            call ≠ .reviewProposal proposalId councilMember approved rationale blockHeight)
          (noChallenge : ∀ proposalId challenger grounds blockHeight,
            call ≠ .raiseGrapheParanomon proposalId challenger grounds blockHeight)
          (noVote : ∀ proposalId councilMember dismiss,
            call ≠ .voteOnGrapheParanomon proposalId councilMember dismiss) :
          Lawful
            { ekklesia with
              boule, upheld := fun id => ekklesia.upheld id || boule.isUpheld id } := by
        obtain ⟨minStake, screeningRequired, citizens, council, same, screening⟩ :=
          ekklesia.boule.apply_frame applied noReview noChallenge noVote
        rcases screening with kept | rfl
        · exact lawful.unrelated minStake (kept.trans lawful.screening) citizens council same
        · exact lawful.unrelated minStake orderly citizens council same
      cases call with
      | reviewProposal proposalId councilMember approved rationale blockHeight =>
          exact review_lawful lawful orderly applied
      | raiseGrapheParanomon proposalId challenger grounds blockHeight =>
          exact raise_lawful lawful orderly applied
      | voteOnGrapheParanomon proposalId councilMember dismiss =>
          exact vote_lawful lawful orderly applied
      | registerCitizen address stakeAmount blockHeight | setCitizenEligibility address eligible
      | conductSortition seed blockHeight | isProposalApproved proposalId | setMinStake amount
      | setScreeningRequired required => exact unrelated nofun nofun nofun

theorem orderly_run_protects (secp : Secp256k1) {voting : VotingSystem}
    (required : voting.requireBouleApproval = true) {councilSize : UInt32}
    {termBlocks minStake : UInt64} {calls : List EkklesiaCall}
    (run : Run (OrderlyStep secp) (opened voting (.new councilSize termBlocks minStake true)) calls
      ekklesia) : ekklesia.Protects secp := by
  have lawful : ekklesia.Lawful := by
    apply run.invariant (motive := Lawful)
    · exact opened_lawful required councilSize termBlocks minStake
    · intro ekklesia call next lawful step
      exact orderly_step_lawful lawful step
  exact lawful.protects

/-- A voting system that asks for the approval of the Boule. -/
def screening : VotingSystem := { VotingSystem.new with requireBouleApproval := true }

/-- A council of one citizen, and a proposal. -/
def proposed : List EkklesiaCall :=
  [.boule (.registerCitizen [1] 0 0), .boule (.conductSortition [0, 0, 0, 0] 0),
    .voting (.createProposal [1] .general "title" "text" [] 0)]

/-- The proposal is approved, and found unlawful. -/
def approvedThenUpheld : List EkklesiaCall :=
  proposed ++ [.boule (.reviewProposal 1 [1] true "" 1),
    .boule (.raiseGrapheParanomon 1 [1] "grounds" 1), .boule (.voteOnGrapheParanomon 1 [1] false),
    .voting (.updateBlockHeight 100)]

/-- The proposal is approved, a vote comes too early, and the proposal is challenged. -/
def approvedThenChallenged : List EkklesiaCall :=
  proposed ++ [.boule (.reviewProposal 1 [1] true "" 1), .voting SampleVoter.castYes,
    .boule (.raiseGrapheParanomon 1 [1] "grounds" 1), .voting (.updateBlockHeight 100)]

theorem run_unprotected :
    (¬ ∀ (secp : Secp256k1) (voting : VotingSystem) (councilSize : UInt32)
      (termBlocks minStake : UInt64) (calls : List EkklesiaCall) (ekklesia : Ekklesia),
      voting.requireBouleApproval = true →
      (∀ call ∈ calls, call ≠ .boule (.setScreeningRequired false)) →
      calls.foldlM (after secp) (opened voting (.new councilSize termBlocks minStake true)) =
        some ekklesia →
      ∀ proposalId, ekklesia.upheld proposalId = true →
        ekklesia.boule.isProposalApproved proposalId = false ∧
        ∀ voter choice votingPower signature,
          (ekklesia.system.castVote secp proposalId voter choice votingPower signature).map
            Prod.fst ≠ some true) ∧
    ¬ ∀ (secp : Secp256k1) (voting : VotingSystem) (councilSize : UInt32)
      (termBlocks minStake : UInt64) (calls : List EkklesiaCall) (ekklesia : Ekklesia),
      voting.requireBouleApproval = true →
      (∀ call ∈ calls, call ≠ .boule (.setScreeningRequired false)) →
      calls.foldlM (after secp) (opened voting (.new councilSize termBlocks minStake true)) =
        some ekklesia →
      ∀ proposalId, ekklesia.boule.hasActiveChallenge proposalId = true →
        ekklesia.boule.isProposalApproved proposalId = false ∧
        ∀ voter choice votingPower signature,
          (ekklesia.system.castVote secp proposalId voter choice votingPower signature).map
            Prod.fst ≠ some true := by
  constructor
  · intro claim
    have accepted : (approvedThenUpheld.foldlM (after SampleVoter.library)
        (opened screening (.new 1 100 0 true))).map (fun ekklesia => (ekklesia.upheld 1,
          (ekklesia.system.castVote SampleVoter.library 1 SampleVoter.key.bytes .yes 1
            SampleVoter.signature.bytes).map Prod.fst)) = some (true, some true) := by
      decide +kernel
    obtain ⟨ekklesia, run, both⟩ := Option.map_eq_some_iff.mp accepted
    obtain ⟨upheld, cast_⟩ := Prod.mk.inj both
    have screened : ∀ call ∈ approvedThenUpheld, call ≠ .boule (.setScreeningRequired false) := by
      simp [approvedThenUpheld, proposed]
    exact (claim _ screening 1 100 0 _ ekklesia rfl screened run 1 upheld).2 _ _ _ _ cast_
  · intro claim
    have accepted : (approvedThenChallenged.foldlM (after SampleVoter.library)
        (opened screening (.new 1 100 0 true))).map (fun ekklesia =>
          (ekklesia.boule.hasActiveChallenge 1,
            (ekklesia.system.castVote SampleVoter.library 1 SampleVoter.key.bytes .yes 1
              SampleVoter.signature.bytes).map Prod.fst)) = some (true, some true) := by
      decide +kernel
    obtain ⟨ekklesia, run, both⟩ := Option.map_eq_some_iff.mp accepted
    obtain ⟨active, cast_⟩ := Prod.mk.inj both
    have screened : ∀ call ∈ approvedThenChallenged,
        call ≠ .boule (.setScreeningRequired false) := by
      simp [approvedThenChallenged, proposed, SampleVoter.castYes]
    exact (claim _ screening 1 100 0 _ ekklesia rfl screened run 1 active).2 _ _ _ _ cast_

/-- The proposal is found unlawful before anyone approves it. -/
def upheldAtOnce : List EkklesiaCall :=
  proposed ++ [.boule (.raiseGrapheParanomon 1 [1] "grounds" 1),
    .boule (.voteOnGrapheParanomon 1 [1] false), .voting (.updateBlockHeight 100),
    .voting SampleVoter.castYes]

theorem orderly_run_protects_upheld :
    ∃ ekklesia, upheldAtOnce.foldlM (after SampleVoter.library)
        (opened screening (.new 1 100 0 true)) = some ekklesia ∧
      ekklesia.upheld 1 = true ∧ ekklesia.Protects SampleVoter.library := by
  have found : (upheldAtOnce.foldlM (after SampleVoter.library)
      (opened screening (.new 1 100 0 true))).map (fun ekklesia => ekklesia.upheld 1) =
        some true := by decide +kernel
  obtain ⟨ekklesia, done, upheld⟩ := Option.map_eq_some_iff.mp found
  have each : EachInTurn (after SampleVoter.library) Orderly
      (opened screening (.new 1 100 0 true)) upheldAtOnce := by decide +kernel
  have run : Run (OrderlyStep SampleVoter.library) (opened screening (.new 1 100 0 true))
      upheldAtOnce ekklesia := each.extend .start done
  exact ⟨ekklesia, done, upheld, orderly_run_protects SampleVoter.library rfl run⟩

end Ekklesia

end Parthenon.Governance
