import Mathlib.Data.Finset.Dedup
import Parthenon.Governance.BouleLaws

namespace Parthenon.Governance

open Library Std

/-! # Majorities of the council

A member may vote on a challenge again and again, and the reviews of members who
have left the council count with the others.
-/

/-- A challenge that was resolved, with the members who had voted for the way it went. -/
structure Resolution where
  councilSize : UInt32
  voters : Finset Bytes

/-- An approval of a proposal, with the members of that moment who had approved it. -/
structure Verdict where
  councilSize : UInt32
  approvers : Finset Bytes

/-- A Boule with the ballots on each challenge of now, by side, and those who approved
each proposal. -/
structure Assembly where
  boule : Boule
  ballots : UInt64 → Bool → List Bytes
  approved : UInt64 → Finset Bytes
  resolutions : List Resolution
  verdicts : List Verdict

namespace Assembly

def opened (boule : Boule) : Assembly := ⟨boule, fun _ _ => [], fun _ => ∅, [], []⟩

variable (assembly : Assembly)

/-- The ballots after a vote: only that of a member counts. -/
def ballotsWith (proposalId : UInt64) (councilMember : Bytes) (dismiss : Bool) :
    UInt64 → Bool → List Bytes :=
  if councilMember ∈ assembly.boule.members then
    Function.update assembly.ballots proposalId
      (Function.update (assembly.ballots proposalId) dismiss
        (councilMember :: assembly.ballots proposalId dismiss))
  else assembly.ballots

/-- How the challenge of a proposal was resolved, if it was. -/
def resolution (proposalId : UInt64) : Option Resolution :=
  (assembly.boule.challenges[proposalId]?.filter GrapheParanomon.resolved).map fun challenge =>
    ⟨assembly.boule.councilSize, (assembly.ballots proposalId !challenge.upheld).toFinset⟩

def verdict (proposalId : UInt64) : Verdict :=
  ⟨assembly.boule.councilSize, assembly.approved proposalId ∩ assembly.boule.members⟩

/-- A vote that was accepted. -/
def voted (boule : Boule) (proposalId : UInt64) (councilMember : Bytes) (dismiss : Bool) : Assembly :=
  let counted :=
    { assembly with boule, ballots := assembly.ballotsWith proposalId councilMember dismiss }
  { counted with resolutions := (counted.resolution proposalId).toList ++ assembly.resolutions }

def after : BouleCall → Option Assembly
  | .reviewProposal proposalId councilMember approved rationale blockHeight =>
      let (reviewed, boule) :=
        assembly.boule.reviewProposal proposalId councilMember approved rationale blockHeight
      some
        { assembly with
          boule
          approved :=
            if reviewed ∧ approved then
              Function.update assembly.approved proposalId
                (insert councilMember (assembly.approved proposalId))
            else assembly.approved }
  | .isProposalApproved proposalId =>
      if assembly.boule.screeningRequired ∧ assembly.boule.isProposalApproved proposalId then
        some { assembly with verdicts := assembly.verdict proposalId :: assembly.verdicts }
      else some assembly
  | .raiseGrapheParanomon proposalId challenger grounds blockHeight =>
      let (raised, boule) :=
        assembly.boule.raiseGrapheParanomon proposalId challenger grounds blockHeight
      some
        { assembly with
          boule
          ballots :=
            if raised then Function.update assembly.ballots proposalId fun _ => []
            else assembly.ballots }
  | .voteOnGrapheParanomon proposalId councilMember dismiss =>
      let (accepted, boule) :=
        assembly.boule.voteOnGrapheParanomon proposalId councilMember dismiss
      if accepted then some (assembly.voted boule proposalId councilMember dismiss)
      else some { assembly with boule }
  | call => (assembly.boule.apply call).map fun boule => { assembly with boule }

/-- More than half of the council decided each challenge, and two thirds of it, rounded
up, each approval. -/
structure Majorities : Prop where
  resolutions : ∀ resolution ∈ assembly.resolutions,
    resolution.councilSize.toNat < 2 * resolution.voters.card
  verdicts : ∀ verdict ∈ assembly.verdicts,
    (2 * verdict.councilSize.toNat + 2) / 3 ≤ verdict.approvers.card

/-- The approving reviews of addresses that are not on the council. -/
def strangers (proposalId : UInt64) : List ProposalReview :=
  (assembly.boule.approvals proposalId).filter (·.reviewer ∉ assembly.boule.members)

/-- The last ballot of a majority, and those before it, are of different members.  An
approval does not need the reviews of addresses that are not on the council. -/
def Orderly : BouleCall → Prop
  | .isProposalApproved proposalId =>
      assembly.boule.screeningRequired = true →
        assembly.boule.hasActiveChallenge proposalId = false →
        assembly.boule.requiredApprovals.toNat ≤ (assembly.boule.approvals proposalId).length →
        assembly.boule.requiredApprovals.toNat + (assembly.strangers proposalId).length ≤
          (assembly.boule.approvals proposalId).length
  | .voteOnGrapheParanomon proposalId councilMember dismiss =>
      ∀ challenge ∈ assembly.boule.challenges[proposalId]?, challenge.resolved = false →
        councilMember ∈ assembly.boule.members →
        assembly.boule.majority ≤ challenge.votes dismiss + 1 →
        (councilMember :: assembly.ballots proposalId dismiss).Nodup
  | _ => True

instance : ∀ call, Decidable (assembly.Orderly call)
  | .isProposalApproved _ => inferInstanceAs (Decidable (_ → _ → _ → _))
  | .voteOnGrapheParanomon _ _ _ => inferInstanceAs (Decidable (∀ challenge ∈ _, _ → _ → _ → _))
  | .registerCitizen .. | .setCitizenEligibility .. | .conductSortition .. | .reviewProposal ..
  | .raiseGrapheParanomon .. | .setMinStake _ | .setScreeningRequired _ =>
      inferInstanceAs (Decidable True)

def OrderlyStep (assembly : Assembly) (call : BouleCall) (next : Assembly) : Prop :=
  assembly.Orderly call ∧ assembly.after call = some next

/-- A challenge of now has a vote for each ballot, and no majority. -/
def Counted (majority : UInt64) (challenge : GrapheParanomon) (ballots : Bool → List Bytes) : Prop :=
  challenge.resolved = false →
    ∀ side, (challenge.votes side).toNat = (ballots side).length ∧ challenge.votes side < majority

/-- The challenges are counted, and the reviews of a proposal have different authors. -/
structure Kept : Prop where
  majorities : assembly.Majorities
  counted : ∀ (proposalId : UInt64) challenge, assembly.boule.challenges[proposalId]? = some challenge →
    Counted assembly.boule.majority challenge (assembly.ballots proposalId)
  reviewers : ∀ proposalId,
    ((assembly.boule.getProposalReviews proposalId).map ProposalReview.reviewer).Nodup
  approvers : ∀ proposalId, ∀ review ∈ assembly.boule.approvals proposalId,
    review.reviewer ∈ assembly.approved proposalId

variable {assembly}

theorem opened_kept (councilSize : UInt32) (termBlocks minStake : UInt64) (screeningRequired : Bool) :
    (opened (.new councilSize termBlocks minStake screeningRequired)).Kept where
  majorities := ⟨nofun, nofun⟩
  counted := by
    intro proposalId challenge found
    exact absurd found not_found_empty
  reviewers := by
    intro proposalId
    rw [Boule.getProposalReviews_eq]
    exact List.nodup_nil
  approvers := by
    intro proposalId review listed
    rw [Boule.approvals, Boule.getProposalReviews_eq] at listed
    cases listed

/-- Reviews, challenges and the size of the council are all that a Boule has to keep. -/
theorem Kept.frame (kept : assembly.Kept) (minStake : UInt64) (screeningRequired : Bool)
    (citizens : List Citizen) (council : List CouncilMember) :
    Kept { assembly with
      boule := { assembly.boule with minStake, screeningRequired, citizens, council } } :=
  ⟨⟨kept.majorities.resolutions, kept.majorities.verdicts⟩, kept.counted, kept.reviewers,
    kept.approvers⟩

/-- Writing one challenge does not touch those of other proposals. -/
theorem Kept.counted_insert (kept : assembly.Kept) {proposalId : UInt64} {written : GrapheParanomon}
    {ballots : UInt64 → Bool → List Bytes}
    (here : Counted assembly.boule.majority written (ballots proposalId))
    (elsewhere : ∀ other, proposalId ≠ other → ballots other = assembly.ballots other)
    (other : UInt64) (challenge : GrapheParanomon)
    (found : (assembly.boule.challenges.insert proposalId written)[other]? = some challenge) :
    Counted assembly.boule.majority challenge (ballots other) := by
  rw [getElem?_insert_eq] at found
  by_cases same : proposalId = other
  · subst same
    rw [if_pos rfl] at found
    cases found
    exact here
  · rw [if_neg same] at found
    rw [elsewhere other same]
    exact kept.counted other challenge found

theorem review_kept (kept : assembly.Kept) {next : Assembly} {proposalId : UInt64}
    {councilMember : Bytes} {approved : Bool} {rationale : String} {blockHeight : UInt64}
    (taken : assembly.after (.reviewProposal proposalId councilMember approved rationale
      blockHeight) = some next) : next.Kept := by
  rcases assembly.boule.reviewProposal_cases proposalId councilMember approved rationale
    blockHeight with refused | ⟨-, first, done⟩
  · simp only [after, refused, Bool.false_eq_true, false_and, if_false] at taken
    cases taken
    exact kept
  simp only [after, done, true_and] at taken
  cases taken
  refine ⟨⟨kept.majorities.resolutions, kept.majorities.verdicts⟩, kept.counted, ?_, ?_⟩
  · intro other
    simp only [Boule.getProposalReviews, getD_insert_eq]
    split
    · rw [List.map_append, List.nodup_append]
      refine ⟨kept.reviewers proposalId, List.nodup_singleton _, ?_⟩
      intro earlier listed again isNew same
      obtain ⟨review, isReview, rfl⟩ := List.mem_map.mp listed
      exact first review isReview (same.trans (List.mem_singleton.mp isNew))
    · exact kept.reviewers other
  · have grows (other : UInt64) : assembly.approved other ⊆ (if approved = true then
        Function.update assembly.approved proposalId
          (insert councilMember (assembly.approved proposalId))
        else assembly.approved) other := by
      split
      · by_cases same : other = proposalId
        · subst same
          rw [Function.update_self]
          exact Finset.subset_insert _ _
        · rw [Function.update_of_ne same]
      · exact subset_rfl
    intro other review listed
    simp only [Boule.approvals, Boule.getProposalReviews, getD_insert_eq] at listed
    obtain ⟨stored, approves⟩ := List.mem_filter.mp listed
    split at stored
    · rename_i same
      subst same
      rcases List.mem_append.mp stored with earlier | isNew
      · exact grows _ (kept.approvers proposalId review (List.mem_filter.mpr ⟨earlier, approves⟩))
      · cases List.mem_singleton.mp isNew
        dsimp only at approves ⊢
        rw [if_pos approves, Function.update_self]
        exact Finset.mem_insert_self _ _
    · exact grows other (kept.approvers other review (List.mem_filter.mpr ⟨stored, approves⟩))

theorem raise_kept (kept : assembly.Kept) {next : Assembly} {proposalId : UInt64}
    {challenger : Bytes} {grounds : String} {blockHeight : UInt64}
    (taken : assembly.after (.raiseGrapheParanomon proposalId challenger grounds blockHeight) =
      some next) : next.Kept := by
  rcases assembly.boule.raiseGrapheParanomon_cases proposalId challenger grounds blockHeight with
    refused | ⟨-, -, done⟩
  · simp only [after, refused, Bool.false_eq_true, if_false] at taken
    cases taken
    exact kept
  simp only [after, done, if_true] at taken
  cases taken
  refine ⟨⟨kept.majorities.resolutions, kept.majorities.verdicts⟩, ?_, kept.reviewers,
    kept.approvers⟩
  apply kept.counted_insert
  · intro _ side
    have none_ : (Boule.newChallenge proposalId challenger grounds blockHeight).votes side = 0 := by
      cases side with
      | false => rfl
      | true => rfl
    dsimp only
    rw [none_, Function.update_self]
    refine ⟨rfl, UInt64.lt_iff_toNat_lt.mpr ?_⟩
    change 0 < assembly.boule.majority.toNat
    rw [Boule.toNat_majority]
    exact Nat.succ_pos _
  · intro other differs
    exact Function.update_of_ne (Ne.symm differs) _ _

/-- An approval that does not need the reviews of former members has enough of the others. -/
theorem verdict_enough (kept : assembly.Kept) {proposalId : UInt64}
    (enough : assembly.boule.requiredApprovals.toNat + (assembly.strangers proposalId).length ≤
      (assembly.boule.approvals proposalId).length) :
    (2 * (assembly.verdict proposalId).councilSize.toNat + 2) / 3 ≤
      (assembly.verdict proposalId).approvers.card := by
  let isMember (review : ProposalReview) : Bool := review.reviewer ∈ assembly.boule.members
  have split : (assembly.boule.approvals proposalId).length =
      ((assembly.boule.approvals proposalId).filter isMember).length +
        (assembly.strangers proposalId).length := by
    rw [List.length_eq_length_filter_add isMember]
    simp only [isMember, strangers, decide_not]
  have distinct : (((assembly.boule.approvals proposalId).filter isMember).map
      ProposalReview.reviewer).Nodup :=
    (kept.reviewers proposalId).sublist
      ((List.filter_sublist.trans List.filter_sublist).map ProposalReview.reviewer)
  have subset : (((assembly.boule.approvals proposalId).filter isMember).map
      ProposalReview.reviewer).toFinset ⊆ (assembly.verdict proposalId).approvers := by
    intro address listed
    obtain ⟨review, isReview, rfl⟩ := List.mem_map.mp (List.mem_toFinset.mp listed)
    obtain ⟨approves, isMember⟩ := List.mem_filter.mp isReview
    exact Finset.mem_inter.mpr
      ⟨kept.approvers proposalId review approves, of_decide_eq_true isMember⟩
  have counted := Finset.card_le_card subset
  rw [List.toFinset_card_of_nodup distinct, List.length_map] at counted
  rw [Boule.toNat_requiredApprovals] at enough
  change (2 * assembly.boule.councilSize.toNat + 2) / 3 ≤ _
  omega

theorem query_kept (kept : assembly.Kept) {next : Assembly} {proposalId : UInt64}
    (orderly : assembly.Orderly (.isProposalApproved proposalId))
    (taken : assembly.after (.isProposalApproved proposalId) = some next) : next.Kept := by
  simp only [after] at taken
  split at taken
  · rename_i asked
    obtain ⟨required, approved⟩ := asked
    cases taken
    refine ⟨⟨kept.majorities.resolutions, ?_⟩, kept.counted, kept.reviewers, kept.approvers⟩
    intro verdict listed
    rcases List.mem_cons.mp listed with rfl | earlier
    · rcases Boule.isProposalApproved_iff.mp approved with free | ⟨unchallenged, revList, found, -,
        enough⟩
      · rw [required] at free
        cases free
      · have isList : assembly.boule.getProposalReviews proposalId = revList := by
          rw [Boule.getProposalReviews_eq, found]
          rfl
        have counted := Boule.approveCount_le revList
        have reached : assembly.boule.requiredApprovals.toNat ≤
            (assembly.boule.approvals proposalId).length := by
          rw [Boule.approvals, isList]
          exact Nat.le_trans (UInt64.le_iff_toNat_le.mp enough) counted
        exact verdict_enough kept (orderly required unchallenged reached)
    · exact kept.majorities.verdicts verdict earlier
  · cases taken
    exact kept

/-- A vote adds at most the resolution of its challenge. -/
theorem voted_resolutions {boule : Boule} {proposalId : UInt64} {councilMember : Bytes}
    {dismiss : Bool} {challenge : GrapheParanomon}
    (found : boule.challenges[proposalId]? = some challenge) {resolution : Resolution}
    (listed : resolution ∈ (assembly.voted boule proposalId councilMember dismiss).resolutions) :
    resolution ∈ assembly.resolutions ∨
    challenge.resolved = true ∧ resolution = ⟨boule.councilSize,
      (assembly.ballotsWith proposalId councilMember dismiss proposalId !challenge.upheld).toFinset⟩ := by
  rcases List.mem_append.mp listed with new | earlier
  · right
    have isNew := Option.mem_toList.mp new
    simp only [Assembly.resolution, found] at isNew
    obtain ⟨kept, isChallenge, rfl⟩ := Option.map_eq_some_iff.mp isNew
    obtain ⟨same, resolved⟩ := Option.filter_eq_some_iff.mp isChallenge
    cases same
    exact ⟨resolved, rfl⟩
  · exact .inl earlier

/-- A challenge that is resolved by a vote has a majority of different voters. -/
theorem vote_kept (kept : assembly.Kept) {next : Assembly} {proposalId : UInt64}
    {councilMember : Bytes} {dismiss : Bool}
    (orderly : assembly.Orderly (.voteOnGrapheParanomon proposalId councilMember dismiss))
    (taken : assembly.after (.voteOnGrapheParanomon proposalId councilMember dismiss) = some next) :
    next.Kept := by
  rcases assembly.boule.voteOnGrapheParanomon_cases proposalId councilMember dismiss with
    refused | ⟨challenge, isMember, found, open_, done⟩
  · simp only [after, refused, Bool.false_eq_true, if_false] at taken
    cases taken
    exact kept
  simp only [after, done, if_true] at taken
  cases taken
  have ballots : assembly.ballotsWith proposalId councilMember dismiss =
      Function.update assembly.ballots proposalId
        (Function.update (assembly.ballots proposalId) dismiss
          (councilMember :: assembly.ballots proposalId dismiss)) := if_pos isMember
  have counted := kept.counted proposalId challenge found open_
  -- the votes after this one are the ballots after this one
  have recounted (side : Bool) : ((challenge.addVote dismiss).votes side).toNat =
      (assembly.ballotsWith proposalId councilMember dismiss proposalId side).length := by
    rw [ballots, Function.update_self]
    by_cases same : side = dismiss
    · subst same
      obtain ⟨votes, few⟩ := counted side
      have small := UInt64.lt_iff_toNat_lt.mp few
      have bound := assembly.boule.majority.toNat_lt
      have one : (1 : UInt64).toNat = 1 := rfl
      rw [GrapheParanomon.addVote_votes, Function.update_self, List.length_cons,
        toNat_add_of_fits (by omega), votes, one]
    · rw [GrapheParanomon.addVote_votes_of_ne _ _ same, Function.update_of_ne same]
      exact (counted side).1
  have elsewhere (other : UInt64) (differs : proposalId ≠ other) :
      assembly.ballotsWith proposalId councilMember dismiss other = assembly.ballots other := by
    rw [ballots, Function.update_of_ne (Ne.symm differs)]
  rcases challenge.vote_cases dismiss assembly.boule.majority with
    ⟨side, won, resolved⟩ | ⟨few, unresolved⟩
  · -- the side that has the majority is that of this vote
    have isSide : side = dismiss := by
      by_contra other
      rw [GrapheParanomon.addVote_votes_of_ne _ _ other] at won
      exact absurd (counted side).2 (UInt64.not_lt.mpr won)
    subst isSide
    have voters : (assembly.ballotsWith proposalId councilMember side proposalId side).Nodup := by
      rw [ballots, Function.update_self, Function.update_self]
      rw [GrapheParanomon.addVote_votes] at won
      exact orderly challenge found open_ isMember won
    refine ⟨⟨?_, kept.majorities.verdicts⟩, ?_, kept.reviewers, kept.approvers⟩
    · intro resolution listed
      rcases voted_resolutions ExtTreeMap.getElem?_insert_self listed with earlier | ⟨-, rfl⟩
      · exact kept.majorities.resolutions resolution earlier
      · have many := UInt64.le_iff_toNat_le.mp won
        rw [Boule.toNat_majority, recounted] at many
        simp only [resolved, Bool.not_not, List.toFinset_card_of_nodup voters]
        omega
    · apply kept.counted_insert _ elsewhere
      rw [resolved]
      nofun
  · refine ⟨⟨?_, kept.majorities.verdicts⟩, ?_, kept.reviewers, kept.approvers⟩
    · intro resolution listed
      rcases voted_resolutions ExtTreeMap.getElem?_insert_self listed with earlier | ⟨closed, -⟩
      · exact kept.majorities.resolutions resolution earlier
      · rw [unresolved, GrapheParanomon.addVote_resolved, open_] at closed
        cases closed
    · apply kept.counted_insert _ elsewhere
      rw [unresolved]
      intro stillOpen side
      exact ⟨recounted side, few side⟩

theorem orderly_step_kept (kept : assembly.Kept) {call : BouleCall} {next : Assembly}
    (step : OrderlyStep assembly call next) : next.Kept := by
  obtain ⟨orderly, taken⟩ := step
  have unrelated (boule : Boule) (applied : assembly.boule.apply call = some boule)
      (noReview : ∀ proposalId councilMember approved rationale blockHeight,
        call ≠ .reviewProposal proposalId councilMember approved rationale blockHeight)
      (noChallenge : ∀ proposalId challenger grounds blockHeight,
        call ≠ .raiseGrapheParanomon proposalId challenger grounds blockHeight)
      (noVote : ∀ proposalId councilMember dismiss,
        call ≠ .voteOnGrapheParanomon proposalId councilMember dismiss) :
      Kept { assembly with boule } := by
    obtain ⟨minStake, screeningRequired, citizens, council, rfl, -⟩ :=
      assembly.boule.apply_frame applied noReview noChallenge noVote
    exact kept.frame minStake screeningRequired citizens council
  cases call with
  | reviewProposal proposalId councilMember approved rationale blockHeight =>
      exact review_kept kept taken
  | isProposalApproved proposalId => exact query_kept kept orderly taken
  | raiseGrapheParanomon proposalId challenger grounds blockHeight => exact raise_kept kept taken
  | voteOnGrapheParanomon proposalId councilMember dismiss => exact vote_kept kept orderly taken
  | registerCitizen address stakeAmount blockHeight | setCitizenEligibility address eligible
  | conductSortition seed blockHeight | setMinStake amount | setScreeningRequired required =>
      simp only [after] at taken
      obtain ⟨boule, applied, rfl⟩ := Option.map_eq_some_iff.mp taken
      exact unrelated boule applied nofun nofun nofun

/-- Three citizens, and a council of all of them. -/
def convene : List BouleCall :=
  [.registerCitizen [1] 0 0, .registerCitizen [2] 0 0, .registerCitizen [3] 0 0,
    .conductSortition [0, 0, 0, 0] 0]

def sample : Assembly := opened (.new 3 100 0 true)

/-- One member votes twice. -/
def voteTwice : List BouleCall :=
  convene ++ [.raiseGrapheParanomon 7 [1] "grounds" 1, .voteOnGrapheParanomon 7 [1] true,
    .voteOnGrapheParanomon 7 [1] true]

/-- Two members approve a proposal and lose their seats. -/
def approveAndLeave : List BouleCall :=
  convene ++ [.reviewProposal 7 [1] true "" 1, .reviewProposal 7 [2] true "" 1,
    .setCitizenEligibility [1] false, .setCitizenEligibility [2] false, .registerCitizen [4] 0 2,
    .registerCitizen [5] 0 2, .conductSortition [0, 0, 0, 0] 2, .isProposalApproved 7]

/-- Two members vote to dismiss a challenge, and approve the proposal. -/
def dismissAndApprove : List BouleCall :=
  convene ++ [.raiseGrapheParanomon 7 [1] "grounds" 1, .voteOnGrapheParanomon 7 [1] true,
    .voteOnGrapheParanomon 7 [2] true, .reviewProposal 7 [1] true "" 1,
    .reviewProposal 7 [2] true "" 1, .isProposalApproved 7]

end Assembly

end Parthenon.Governance
