import Mathlib.Data.Finset.Card
import Parthenon.Governance.Boule
import Parthenon.Library.Runs
import Parthenon.Library.Sums

namespace Parthenon.Governance

open Library Std

/-! # What the calls of a Boule do -/

/-- A call of a Boule.  Whether a proposal is approved may be asked at any time. -/
inductive BouleCall
  | registerCitizen (address : Bytes) (stakeAmount blockHeight : UInt64)
  | setCitizenEligibility (address : Bytes) (eligible : Bool)
  | conductSortition (seed : Bytes) (blockHeight : UInt64)
  | reviewProposal (proposalId : UInt64) (councilMember : Bytes) (approved : Bool)
      (rationale : String) (blockHeight : UInt64)
  | isProposalApproved (proposalId : UInt64)
  | raiseGrapheParanomon (proposalId : UInt64) (challenger : Bytes) (grounds : String)
      (blockHeight : UInt64)
  | voteOnGrapheParanomon (proposalId : UInt64) (councilMember : Bytes) (dismiss : Bool)
  | setMinStake (amount : UInt64)
  | setScreeningRequired (required : Bool)

namespace GrapheParanomon

/-- The votes of one side. -/
def votes (challenge : GrapheParanomon) (dismiss : Bool) : UInt64 :=
  if dismiss then challenge.dismissVotes else challenge.upholdVotes

variable (challenge : GrapheParanomon) (dismiss : Bool)

theorem addVote_votes : (challenge.addVote dismiss).votes dismiss = challenge.votes dismiss + 1 := by
  cases dismiss with
  | false => rfl
  | true => rfl

theorem addVote_votes_of_ne {side : Bool} (other : side ≠ dismiss) :
    (challenge.addVote dismiss).votes side = challenge.votes side := by
  cases dismiss with
  | false =>
      rw [Bool.eq_true_of_not_eq_false other]
      rfl
  | true =>
      rw [Bool.eq_false_of_not_eq_true other]
      rfl

theorem addVote_resolved : (challenge.addVote dismiss).resolved = challenge.resolved := by
  cases dismiss with
  | false => rfl
  | true => rfl

/-- A vote resolves the challenge for a side that has a majority, or no side has one. -/
theorem vote_cases (majority : UInt64) :
    (∃ side, majority ≤ (challenge.addVote dismiss).votes side ∧
      challenge.vote dismiss majority =
        { challenge.addVote dismiss with resolved := true, upheld := !side }) ∨
    (∀ side, (challenge.addVote dismiss).votes side < majority) ∧
      challenge.vote dismiss majority = challenge.addVote dismiss := by
  simp only [vote]
  by_cases dismissed : (challenge.addVote dismiss).dismissVotes ≥ majority
  · exact .inl ⟨true, dismissed, if_pos dismissed⟩
  rw [if_neg dismissed]
  by_cases upheld : (challenge.addVote dismiss).upholdVotes ≥ majority
  · exact .inl ⟨false, upheld, if_pos upheld⟩
  refine .inr ⟨?_, if_neg upheld⟩
  intro side
  cases side with
  | false => exact UInt64.not_le.mp upheld
  | true => exact UInt64.not_le.mp dismissed

end GrapheParanomon

namespace Boule

/-- `none` is a call without a meaning. -/
def apply (boule : Boule) : BouleCall → Option Boule
  | .registerCitizen address stakeAmount blockHeight =>
      some (boule.registerCitizen address stakeAmount blockHeight).2
  | .setCitizenEligibility address eligible => some (boule.setCitizenEligibility address eligible).2
  | .conductSortition seed blockHeight => (boule.conductSortition seed blockHeight).map Prod.snd
  | .reviewProposal proposalId councilMember approved rationale blockHeight =>
      some (boule.reviewProposal proposalId councilMember approved rationale blockHeight).2
  | .isProposalApproved _ => some boule
  | .raiseGrapheParanomon proposalId challenger grounds blockHeight =>
      some (boule.raiseGrapheParanomon proposalId challenger grounds blockHeight).2
  | .voteOnGrapheParanomon proposalId councilMember dismiss =>
      some (boule.voteOnGrapheParanomon proposalId councilMember dismiss).2
  | .setMinStake amount => some { boule with minStake := amount }
  | .setScreeningRequired required => some { boule with screeningRequired := required }

/-- The addresses on the council. -/
def members (boule : Boule) : Finset Bytes := (boule.council.map CouncilMember.address).toFinset

variable {boule : Boule}

theorem isCouncilMember_iff {address : Bytes} :
    boule.isCouncilMember address = true ↔ address ∈ boule.members := by
  simp only [isCouncilMember, members, List.any_eq_true, List.mem_toFinset, List.mem_map, beq_iff_eq]

theorem isProposalApproved_iff {proposalId : UInt64} :
    boule.isProposalApproved proposalId = true ↔
      boule.screeningRequired = false ∨
      boule.hasActiveChallenge proposalId = false ∧
        ∃ revList, boule.reviews[proposalId]? = some revList ∧ boule.council ≠ [] ∧
          boule.requiredApprovals ≤ approveCount revList := by
  unfold isProposalApproved
  cases boule.screeningRequired with
  | false => simp
  | true =>
      cases boule.hasActiveChallenge proposalId with
      | true => simp
      | false =>
          cases boule.reviews[proposalId]? with
          | none => simp
          | some revList => simp

theorem toNat_requiredApprovals : boule.requiredApprovals.toNat = (2 * boule.councilSize.toNat + 2) / 3 := by
  have small := boule.councilSize.toNat_lt
  simp only [requiredApprovals, UInt64.toNat_div, UInt64.toNat_add, UInt64.toNat_mul,
    UInt32.toNat_toUInt64, UInt64.reduceToNat]
  omega

theorem toNat_majority : boule.majority.toNat = boule.councilSize.toNat / 2 + 1 := by
  have small := boule.councilSize.toNat_lt
  simp only [majority, UInt64.toNat_add, UInt64.toNat_div, UInt32.toNat_toUInt64,
    UInt64.reduceToNat]
  omega

/-- The approving reviews of a proposal. -/
def approvals (boule : Boule) (proposalId : UInt64) : List ProposalReview :=
  (boule.getProposalReviews proposalId).filter (·.approved)

theorem sum_approved (revList : List ProposalReview) :
    (revList.map fun review => if review.approved then 1 else 0).sum =
      (revList.filter (·.approved)).length := by
  induction revList with
  | nil => rfl
  | cons review rest ih =>
      cases approved : review.approved with
      | false => simpa [approved] using ih
      | true =>
          simp only [List.map_cons, List.sum_cons, approved, if_true, ih, List.filter_cons_of_pos,
            List.length_cons]
          omega

/-- The approving reviews are at least as many as are counted. -/
theorem approveCount_le (revList : List ProposalReview) :
    (approveCount revList).toNat ≤ (revList.filter (·.approved)).length := by
  have counted := toNat_foldl_wrapping
    (fun count (review : ProposalReview) => if review.approved then count + 1 else count)
    (fun review => if review.approved then 1 else 0)
    (by
      intro count review
      have small := count.toNat_lt
      cases review.approved with
      | false =>
          simp only [Bool.false_eq_true, if_false, Nat.add_zero]
          omega
      | true => simp only [if_true, UInt64.toNat_add, UInt64.reduceToNat]) revList 0
  change (approveCount revList).toNat = _ at counted
  rw [counted, sum_approved, UInt64.toNat_zero, Nat.zero_add]
  exact Nat.mod_le _ _

section Cases

variable (boule)

/-- A call that is no review, no challenge and no vote leaves all of these as they are, and
screening is turned on and off by a call of its own. -/
theorem apply_frame {call : BouleCall} {after : Boule} (applied : boule.apply call = some after)
    (noReview : ∀ proposalId councilMember approved rationale blockHeight,
      call ≠ .reviewProposal proposalId councilMember approved rationale blockHeight)
    (noChallenge : ∀ proposalId challenger grounds blockHeight,
      call ≠ .raiseGrapheParanomon proposalId challenger grounds blockHeight)
    (noVote : ∀ proposalId councilMember dismiss,
      call ≠ .voteOnGrapheParanomon proposalId councilMember dismiss) :
    ∃ minStake screeningRequired citizens council,
      after = { boule with minStake, screeningRequired, citizens, council } ∧
        (screeningRequired = boule.screeningRequired ∨
          call = .setScreeningRequired screeningRequired) := by
  cases call with
  | registerCitizen address stakeAmount blockHeight =>
      cases applied
      simp only [registerCitizen]
      split
      · exact ⟨_, _, _, _, rfl, .inl rfl⟩
      split
      · exact ⟨_, _, _, _, rfl, .inl rfl⟩
      split
      · exact ⟨_, _, _, _, rfl, .inl rfl⟩
      · exact ⟨_, _, _, _, rfl, .inl rfl⟩
  | setCitizenEligibility address eligible =>
      cases applied
      simp only [setCitizenEligibility]
      split
      · exact ⟨_, _, _, _, rfl, .inl rfl⟩
      · exact ⟨_, _, _, _, rfl, .inl rfl⟩
  | conductSortition seed blockHeight =>
      obtain ⟨⟨drawn, _⟩, conducted, rfl⟩ := Option.map_eq_some_iff.mp applied
      unfold conductSortition at conducted
      split at conducted
      · cases conducted
        exact ⟨_, _, _, _, rfl, .inl rfl⟩
      dsimp only at conducted
      split at conducted
      · cases conducted
        exact ⟨_, _, _, _, rfl, .inl rfl⟩
      split at conducted
      · cases conducted
      obtain ⟨shuffled, -, seated⟩ := Option.bind_eq_some_iff.mp conducted
      cases seated
      exact ⟨_, _, _, _, rfl, .inl rfl⟩
  | reviewProposal proposalId councilMember approved rationale blockHeight =>
      exact absurd rfl (noReview proposalId councilMember approved rationale blockHeight)
  | isProposalApproved proposalId =>
      cases applied
      exact ⟨_, _, _, _, rfl, .inl rfl⟩
  | raiseGrapheParanomon proposalId challenger grounds blockHeight =>
      exact absurd rfl (noChallenge proposalId challenger grounds blockHeight)
  | voteOnGrapheParanomon proposalId councilMember dismiss =>
      exact absurd rfl (noVote proposalId councilMember dismiss)
  | setMinStake amount =>
      cases applied
      exact ⟨_, _, _, _, rfl, .inl rfl⟩
  | setScreeningRequired required =>
      cases applied
      exact ⟨_, _, _, _, rfl, .inr rfl⟩

theorem getProposalReviews_eq (proposalId : UInt64) :
    boule.getProposalReviews proposalId = boule.reviews[proposalId]?.getD [] :=
  ExtTreeMap.getD_eq_getD_getElem?

/-- A review is refused, or it is the first of its member and the last of the list. -/
theorem reviewProposal_cases (proposalId : UInt64) (councilMember : Bytes) (approved : Bool)
    (rationale : String) (blockHeight : UInt64) :
    boule.reviewProposal proposalId councilMember approved rationale blockHeight = (false, boule) ∨
    councilMember ∈ boule.members ∧
      (∀ review ∈ boule.getProposalReviews proposalId, review.reviewer ≠ councilMember) ∧
      boule.reviewProposal proposalId councilMember approved rationale blockHeight =
        (true,
          { boule with
            reviews := boule.reviews.insert proposalId (boule.getProposalReviews proposalId ++
              [⟨proposalId, councilMember, approved, rationale, blockHeight⟩]) }) := by
  unfold reviewProposal
  cases isMember : boule.isCouncilMember councilMember with
  | false => exact .inl rfl
  | true =>
      cases again : (boule.getProposalReviews proposalId).any (·.reviewer == councilMember) with
      | true =>
          -- the list is there, and it is written back as it was
          have found : boule.reviews[proposalId]? = some (boule.getProposalReviews proposalId) := by
            rw [getProposalReviews_eq] at again ⊢
            cases stored : boule.reviews[proposalId]? with
            | none =>
                rw [stored] at again
                cases again
            | some revList => rfl
          left
          simp only [Bool.not_true, Bool.false_eq_true, if_false, again, if_true,
            insert_of_found found]
      | false =>
          refine .inr ⟨isCouncilMember_iff.mp isMember, ?_, by simp [again]⟩
          intro review listed same
          exact List.any_eq_false.mp again review listed (beq_iff_eq.mpr same)

/-- A challenge is refused, or a member raises it while there is no other. -/
theorem raiseGrapheParanomon_cases (proposalId : UInt64) (challenger : Bytes) (grounds : String)
    (blockHeight : UInt64) :
    boule.raiseGrapheParanomon proposalId challenger grounds blockHeight = (false, boule) ∨
    challenger ∈ boule.members ∧ boule.hasActiveChallenge proposalId = false ∧
      boule.raiseGrapheParanomon proposalId challenger grounds blockHeight =
        (true,
          { boule with
            challenges := boule.challenges.insert proposalId
              (newChallenge proposalId challenger grounds blockHeight) }) := by
  unfold raiseGrapheParanomon
  cases isMember : boule.isCouncilMember challenger with
  | false => exact .inl rfl
  | true =>
      cases boule.hasActiveChallenge proposalId with
      | true => exact .inl rfl
      | false => exact .inr ⟨isCouncilMember_iff.mp isMember, rfl, rfl⟩

/-- A vote is refused, or a member adds it to a challenge that is not resolved. -/
theorem voteOnGrapheParanomon_cases (proposalId : UInt64) (councilMember : Bytes) (dismiss : Bool) :
    boule.voteOnGrapheParanomon proposalId councilMember dismiss = (false, boule) ∨
    ∃ challenge, councilMember ∈ boule.members ∧ boule.challenges[proposalId]? = some challenge ∧
      challenge.resolved = false ∧
      boule.voteOnGrapheParanomon proposalId councilMember dismiss =
        (true,
          { boule with
            challenges := boule.challenges.insert proposalId
              (challenge.vote dismiss boule.majority) }) := by
  unfold voteOnGrapheParanomon
  cases isMember : boule.isCouncilMember councilMember with
  | false => exact .inl rfl
  | true =>
      cases boule.challenges[proposalId]? with
      | none => exact .inl rfl
      | some challenge =>
          cases open_ : challenge.resolved with
          | true => exact .inl (by simp [open_])
          | false => exact .inr ⟨challenge, isCouncilMember_iff.mp isMember, rfl, open_, by simp [open_]⟩

end Cases

end Boule

end Parthenon.Governance
