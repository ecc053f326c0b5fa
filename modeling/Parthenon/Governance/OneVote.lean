import Mathlib.Data.List.Nodup
import Parthenon.Governance.VotingLaws
import Parthenon.Library.Sums

namespace Parthenon.Governance

open Library Crypto Std

/-! # One address, one vote

A snapshot gives every holder the power one.  Without it the voter's own claim counts.
-/

/-! ## Snapshots -/

namespace BalanceVotingRegistry

variable (registry : BalanceVotingRegistry)

/-- The entries that a snapshot of the balances has. -/
def entries : List SnapshotEntry := SnapshotRegistry.entriesOf registry.getAllVotingPowers

theorem mem_entries {entry : SnapshotEntry} (listed : entry ∈ registry.entries) :
    entry.votingPower = 1 ∧ entry.address ∈ registry.balances := by
  obtain ⟨power, isPower, kept⟩ := List.mem_filterMap.mp listed
  obtain ⟨⟨address, amount⟩, held, rfl⟩ := List.mem_map.mp isPower
  cases kept
  refine ⟨rfl, ?_⟩
  rw [ExtTreeMap.mem_iff_isSome_getElem?, ExtTreeMap.mem_toList_iff_getElem?_eq_some.mp held]
  rfl

theorem getAllVotingPowers_isEmpty (holders : registry.balances ≠ ∅) :
    registry.getAllVotingPowers.isEmpty = false := by
  unfold getAllVotingPowers
  cases listed : registry.balances.toList with
  | nil => exact absurd (ExtTreeMap.toList_eq_nil_iff.mp listed) holders
  | cons entry rest => rfl

end BalanceVotingRegistry

namespace SnapshotRegistry

variable {registry : SnapshotRegistry} {proposalId : UInt64}

/-- A snapshot of the balances gives a power to holders alone, and the power is one. -/
theorem power_of_entries {snapshot : Snapshot} {balances : BalanceVotingRegistry}
    (found : registry.snapshots[proposalId]? = some snapshot)
    (entries : snapshot.entries = balances.entries) {voter : Bytes}
    (powered : registry.getSnapshotPower proposalId voter ≠ 0) :
    registry.getSnapshotPower proposalId voter = 1 ∧ voter ∈ balances.balances := by
  unfold getSnapshotPower at powered ⊢
  simp only [found, entries] at powered ⊢
  cases listed : balances.entries.find? (·.address == voter) with
  | none =>
      rw [listed] at powered
      exact absurd rfl powered
  | some entry =>
      obtain ⟨one, held⟩ := balances.mem_entries (List.mem_of_find?_eq_some listed)
      have isVoter : entry.address = voter := by simpa using List.find?_some listed
      exact ⟨one, isVoter ▸ held⟩

theorem createSnapshot_found (free : registry.hasSnapshot proposalId = false) (blockHeight : UInt64)
    (powers : List (Bytes × UInt64)) :
    ∃ snapshot, (registry.createSnapshot proposalId blockHeight powers).2.snapshots[proposalId]? =
        some snapshot ∧ snapshot.entries = entriesOf powers := by
  have missing : registry.snapshots.contains proposalId = false := free
  unfold createSnapshot
  rw [if_neg (by simp [missing])]
  exact ⟨_, ExtTreeMap.getElem?_insert_self, rfl⟩

theorem createSnapshot_kept {snapshot : Snapshot}
    (found : registry.snapshots[proposalId]? = some snapshot) (other blockHeight : UInt64)
    (powers : List (Bytes × UInt64)) :
    (registry.createSnapshot other blockHeight powers).2.snapshots[proposalId]? = some snapshot := by
  unfold createSnapshot
  cases there : registry.snapshots.contains other with
  | true => exact found
  | false =>
      have apart : other ≠ proposalId := by
        rintro rfl
        rw [ExtTreeMap.contains_eq_isSome_getElem?, found] at there
        cases there
      rw [if_neg (by simp), getElem?_insert_eq, if_neg apart]
      exact found

end SnapshotRegistry

/-! ## Tallies -/

namespace Proposal

/-- The exact sum of the four tallies. -/
def tallied (proposal : Proposal) : Nat :=
  proposal.yesVotes.toNat + proposal.noVotes.toNat + proposal.abstainVotes.toNat +
    proposal.vetoVotes.toNat

theorem count_tallied {proposal : Proposal} {choice : VoteChoice} {power : UInt64}
    (fits : proposal.tallied + power.toNat < 2 ^ 64) :
    (proposal.count choice power).tallied = proposal.tallied + power.toNat := by
  unfold tallied at fits ⊢
  unfold count
  cases choice
  all_goals
    dsimp only
    split
    all_goals
      dsimp only
      rw [toNat_add_of_fits (by omega)]
      omega

theorem tally_tallied (proposal : Proposal) (vetoThresholdBps currentBlockHeight : UInt64) :
    (proposal.tally vetoThresholdBps currentBlockHeight).tallied = proposal.tallied := by
  obtain ⟨status, executionTime, _, same⟩ := proposal.tally_frame vetoThresholdBps currentBlockHeight
  rw [same]
  rfl

end Proposal

/-! ## Polls -/

/-- A voting system with the voters that were accepted for one proposal. -/
structure Poll where
  voting : VotingSystem
  accepted : List Bytes

/-- A call of the voting system, or any change of the balances. -/
inductive PollCall
  | voting (call : VotingCall)
  | balances (registry : BalanceVotingRegistry)

namespace Poll

variable (secp : Secp256k1) (proposalId : UInt64) (balances : BalanceVotingRegistry) (poll : Poll)

def after : PollCall → Option Poll
  | .voting (.castVote id voter choice votingPower signature) =>
      (poll.voting.castVote secp id voter choice votingPower signature).map fun (result, voting) =>
        { voting
          accepted := if result ∧ id = proposalId then poll.accepted ++ [voter] else poll.accepted }
  | .voting call => (poll.voting.apply secp call).map fun voting => { poll with voting }
  | .balances registry =>
      some { poll with voting := { poll.voting with balanceRegistry := some registry } }

/-- Every accepted voter held tokens and is counted once, with the power one. -/
structure OneVote : Prop where
  recorded : (poll.voting.getProposalVotes proposalId).map Vote.voter = poll.accepted
  distinct : poll.accepted.Nodup
  holders : ∀ voter ∈ poll.accepted, ∃ amount, balances.balances[voter]? = some amount ∧ 0 < amount
  powers : ∀ vote ∈ poll.voting.getProposalVotes proposalId, vote.votingPower = 1
  tallied : ∃ proposal, poll.voting.proposals[proposalId]? = some proposal ∧
    proposal.tallied = poll.accepted.length

/-- The id of the proposal is not given to another one. -/
def Orderly : PollCall → Prop
  | .voting (.createProposal ..) => poll.voting.nextProposalId ≠ proposalId
  | _ => True

instance : ∀ call, Decidable (poll.Orderly proposalId call)
  | .voting (.createProposal ..) => inferInstanceAs (Decidable (_ ≠ _))
  | .voting (.castVote ..) | .voting (.tallyVotes _) | .voting (.executeProposal _)
  | .voting (.updateBlockHeight _) | .voting (.markBouleApproved _) | .voting (.returnDeposit _)
  | .voting (.slashDeposit _) | .balances _ => inferInstanceAs (Decidable True)

def OrderlyStep (poll : Poll) (call : PollCall) (next : Poll) : Prop :=
  poll.Orderly proposalId call ∧ poll.after secp proposalId call = some next

/-- The proposal has its snapshot, and no guard changes a power. -/
structure Frozen (voting : VotingSystem) : Prop where
  unguarded : voting.antiWhale = none
  snapshot : ∃ registry snapshot, voting.snapshotRegistry = some registry ∧
    registry.snapshots[proposalId]? = some snapshot ∧ snapshot.entries = balances.entries

/-- What a call leaves alone when it takes no vote for the proposal. -/
structure Untouched (before after : VotingSystem) : Prop where
  votes : after.getProposalVotes proposalId = before.getProposalVotes proposalId
  tallied : ∀ proposal, before.proposals[proposalId]? = some proposal →
    ∃ kept, after.proposals[proposalId]? = some kept ∧ kept.tallied = proposal.tallied
  frozen : Frozen proposalId balances before → Frozen proposalId balances after

variable {secp} {proposalId} {balances} {poll}

/-- There are fewer than 2^64 holders to accept. -/
theorem few_holders {voters : List Bytes} (distinct : voters.Nodup)
    (holders : ∀ voter ∈ voters, ∃ amount, balances.balances[voter]? = some amount ∧ 0 < amount) :
    voters.length < 2 ^ 64 := by
  have subset : voters ⊆ balances.balances.toList.map Prod.fst := by
    intro voter listed
    obtain ⟨amount, held, -⟩ := holders voter listed
    exact List.mem_map.mpr
      ⟨(voter, amount), ExtTreeMap.mem_toList_iff_getElem?_eq_some.mpr held, rfl⟩
  have short := (List.subperm_of_subset distinct subset).length_le
  rw [List.length_map, ExtTreeMap.length_toList] at short
  exact Nat.lt_of_le_of_lt short balances.fits

theorem OneVote.keep (oneVote : poll.OneVote proposalId balances) {voting : VotingSystem}
    (untouched : Untouched proposalId balances poll.voting voting) :
    { poll with voting }.OneVote proposalId balances := by
  obtain ⟨recorded, distinct, holders, powers, proposal, found, tallied⟩ := oneVote
  obtain ⟨kept, there, same⟩ := untouched.tallied proposal found
  refine ⟨?_, distinct, holders, ?_, kept, there, same.trans tallied⟩
  · dsimp only
    rw [untouched.votes, recorded]
  · dsimp only
    rw [untouched.votes]
    exact powers

/-- A proposal that is written over keeps the poll, when it keeps its tallies. -/
theorem untouched_write {voting after : VotingSystem} {id : UInt64} {stored changed : Proposal}
    (found : voting.proposals[id]? = some stored)
    (written : after.proposals = voting.proposals.insert id changed)
    (same : changed.tallied = stored.tallied)
    (votes : after.votes = voting.votes) (guard : after.antiWhale = voting.antiWhale)
    (snapshots : after.snapshotRegistry = voting.snapshotRegistry) :
    Untouched proposalId balances voting after where
  votes := by rw [VotingSystem.getProposalVotes, VotingSystem.getProposalVotes, votes]
  tallied := by
    intro proposal there
    rw [written, getElem?_insert_eq]
    by_cases this : id = proposalId
    · subst this
      rw [found] at there
      cases there
      exact ⟨changed, if_pos rfl, same⟩
    · exact ⟨proposal, (if_neg this).trans there, rfl⟩
  frozen := by
    rintro ⟨unguarded, snapshot⟩
    exact ⟨guard.trans unguarded, by rwa [snapshots]⟩

theorem untouched_record {voting : VotingSystem} {id : UInt64} {proposal : Proposal} {voter : Bytes}
    {choice : VoteChoice} {power : UInt64} {signature : Bytes} (other : id ≠ proposalId) :
    Untouched proposalId balances voting
      (voting.recordVote id proposal voter choice power signature) where
  votes := by
    simp only [VotingSystem.getProposalVotes, VotingSystem.recordVote,
      ExtTreeMap.getD_eq_getD_getElem?, getElem?_insert_eq, if_neg other]
  tallied := by
    intro kept there
    refine ⟨kept, ?_, rfl⟩
    simp only [VotingSystem.recordVote, VotingSystem.setProposal, getElem?_insert_eq, if_neg other,
      there]
  frozen := fun frozen => ⟨frozen.unguarded, frozen.snapshot⟩

theorem untouched_create {proposer : Bytes} {type : ProposalType} {title description : String}
    {executionData : Bytes} {depositAmount : UInt64} {voting : VotingSystem}
    (other : voting.nextProposalId ≠ proposalId) :
    Untouched proposalId balances voting
      (voting.createProposal proposer type title description executionData depositAmount).2 where
  votes := rfl
  tallied := by
    intro kept there
    refine ⟨kept, ?_, rfl⟩
    simp only [VotingSystem.createProposal, VotingSystem.newProposal, getElem?_insert_eq,
      if_neg other, there]
  frozen := by
    rintro ⟨unguarded, registry, snapshot, attached, found, entries⟩
    refine ⟨unguarded, ?_⟩
    simp only [VotingSystem.createProposal, VotingSystem.snapshotted, attached, Option.map_some]
    split
    · exact ⟨registry, snapshot, rfl, found, entries⟩
    · exact ⟨_, snapshot, rfl, SnapshotRegistry.createSnapshot_kept found _ _ _, entries⟩

/-- What a call that takes no vote for the proposal leaves alone. -/
theorem untouched_apply {voting next : VotingSystem} {call : VotingCall}
    (applied : voting.apply secp call = some next)
    (orderly : ∀ proposer type title description executionData depositAmount,
      call = .createProposal proposer type title description executionData depositAmount →
        voting.nextProposalId ≠ proposalId)
    (noVote : ∀ id voter choice votingPower signature,
      call ≠ .castVote id voter choice votingPower signature) :
    Untouched proposalId balances voting next := by
  have same : Untouched proposalId balances voting voting :=
    ⟨rfl, fun proposal there => ⟨proposal, there, rfl⟩, id⟩
  cases call with
  | castVote id voter choice votingPower signature =>
      exact absurd rfl (noVote id voter choice votingPower signature)
  | createProposal proposer type title description executionData depositAmount =>
      cases applied
      exact untouched_create (orderly _ _ _ _ _ _ rfl)
  | updateBlockHeight height =>
      cases applied
      exact ⟨rfl, fun proposal there => ⟨proposal, there, rfl⟩,
        fun frozen => ⟨frozen.unguarded, frozen.snapshot⟩⟩
  | tallyVotes id =>
      cases applied
      rcases voting.tallyVotes_cases id with refused | ⟨proposal, found, -, done⟩
      · rwa [refused]
      · rw [done]
        exact untouched_write found rfl (proposal.tally_tallied _ _) rfl rfl rfl
  | executeProposal id =>
      cases applied
      rcases voting.executeProposal_cases id with
        refused | ⟨proposal, govParams, treasury, executionData, found, -, -, done⟩
      · rwa [refused]
      · rw [done]
        exact untouched_write found rfl rfl rfl rfl rfl
  | markBouleApproved id =>
      cases applied
      rcases voting.markBouleApproved_cases id with refused | ⟨proposal, found, done⟩
      · rwa [refused]
      · rw [done]
        exact untouched_write found rfl rfl rfl rfl rfl
  | returnDeposit id | slashDeposit id =>
      cases applied
      simp only [VotingSystem.returnDeposit, VotingSystem.slashDeposit]
      rcases voting.closeDeposit_cases id with refused | ⟨proposal, found, done⟩
      · rwa [refused]
      · rw [done]
        exact untouched_write found rfl rfl rfl rfl rfl

theorem Untouched.trans {first second third : VotingSystem}
    (one : Untouched proposalId balances first second)
    (two : Untouched proposalId balances second third) :
    Untouched proposalId balances first third where
  votes := two.votes.trans one.votes
  tallied := by
    intro proposal there
    obtain ⟨kept, found, same⟩ := one.tallied proposal there
    obtain ⟨last, last_, sameLast⟩ := two.tallied kept found
    exact ⟨last, last_, sameLast.trans same⟩
  frozen := two.frozen ∘ one.frozen

/-- The power of an accepted vote is one, and its voter held tokens. -/
theorem accepted_power {voting : VotingSystem} (frozen : Frozen proposalId balances voting)
    {stored : Proposal} {voter : Bytes} {choice : VoteChoice} {votingPower effective : UInt64}
    {signature : Bytes}
    (accepts : voting.Accepts secp proposalId stored voter choice votingPower effective signature) :
    effective = 1 ∧ ∃ amount, balances.balances[voter]? = some amount ∧ 0 < amount := by
  obtain ⟨power, powered, counted⟩ := accepts.powered
  obtain ⟨unguarded, registry, snapshot, attached, found, entries⟩ := frozen
  have there : registry.hasSnapshot proposalId = true := by
    rw [SnapshotRegistry.hasSnapshot, ExtTreeMap.contains_eq_isSome_getElem?, found]
    rfl
  simp only [VotingSystem.snapshotPower, attached, there, if_true] at powered
  split at powered
  · cases powered
  rename_i positive
  cases powered
  obtain ⟨one, held⟩ := SnapshotRegistry.power_of_entries found entries positive
  simp only [VotingSystem.effectivePower, unguarded] at counted
  cases counted
  obtain ⟨amount, isAmount⟩ := ExtTreeMap.mem_iff_isSome_getElem?.mp held |> Option.isSome_iff_exists.mp
  exact ⟨one, amount, isAmount, (balances.held voter amount isAmount).2⟩

theorem accept_oneVote {stored screened : Proposal} {voter : Bytes} {choice : VoteChoice}
    {votingPower effective : UInt64} {signature : Bytes}
    (oneVote : poll.OneVote proposalId balances) (frozen : Frozen proposalId balances poll.voting)
    (accepts :
      poll.voting.Accepts secp proposalId stored voter choice votingPower effective signature)
    (found : poll.voting.proposals[proposalId]? = some stored)
    (same : screened.tallied = stored.tallied) :
    OneVote proposalId balances
      ⟨(poll.voting.setProposal proposalId screened).recordVote proposalId screened voter choice
          effective signature,
        poll.accepted ++ [voter]⟩ := by
  obtain ⟨rfl, held⟩ := accepted_power frozen accepts
  obtain ⟨recorded, distinct, holders, powers, proposal, there, tallied⟩ := oneVote
  rw [found] at there
  cases there
  have first : voter ∉ poll.accepted := by
    rw [← recorded]
    intro again
    obtain ⟨vote, cast_, isVoter⟩ := List.mem_map.mp again
    exact List.any_eq_false.mp accepts.first vote cast_ (beq_iff_eq.mpr isVoter)
  have distinctNow : (poll.accepted ++ [voter]).Nodup := by
    refine List.nodup_append.mpr ⟨distinct, List.nodup_singleton voter, ?_⟩
    intro other listed last single
    rw [List.mem_singleton.mp single]
    rintro rfl
    exact first listed
  have holdersNow : ∀ other ∈ poll.accepted ++ [voter],
      ∃ amount, balances.balances[other]? = some amount ∧ 0 < amount := by
    intro other listed
    rcases List.mem_append.mp listed with before | now
    · exact holders other before
    · rw [List.mem_singleton.mp now]
      exact held
  have few := few_holders distinctNow holdersNow
  rw [List.length_append, List.length_singleton] at few
  have votes : ((poll.voting.setProposal proposalId screened).recordVote proposalId screened voter
      choice 1 signature).getProposalVotes proposalId =
        poll.voting.getProposalVotes proposalId ++
          [⟨proposalId, voter, choice, 1, poll.voting.currentBlockHeight, signature⟩] := by
    unfold VotingSystem.recordVote VotingSystem.getProposalVotes
    exact ExtTreeMap.getD_insert_self
  refine ⟨?_, distinctNow, holdersNow, ?_, screened.count choice 1,
    ExtTreeMap.getElem?_insert_self, ?_⟩
  · dsimp only
    rw [votes, List.map_append, recorded]
    rfl
  · dsimp only
    rw [votes]
    intro vote listed
    rcases List.mem_append.mp listed with before | now
    · exact powers vote before
    · rw [List.mem_singleton.mp now]
  · have one : (1 : UInt64).toNat = 1 := rfl
    rw [Proposal.count_tallied (by omega), same, tallied, List.length_append]
    rfl

/-- The poll of a proposal whose snapshot was taken. -/
structure Sound (proposalId : UInt64) (balances : BalanceVotingRegistry) (poll : Poll) : Prop where
  oneVote : poll.OneVote proposalId balances
  frozen : Frozen proposalId balances poll.voting

theorem Sound.keep (sound : poll.Sound proposalId balances) {voting : VotingSystem}
    (untouched : Untouched proposalId balances poll.voting voting) :
    { poll with voting }.Sound proposalId balances :=
  ⟨sound.oneVote.keep untouched, untouched.frozen sound.frozen⟩

theorem castVote_sound (sound : poll.Sound proposalId balances) {id : UInt64} {voter : Bytes}
    {choice : VoteChoice} {votingPower : UInt64} {signature : Bytes} {result : Bool}
    {voting : VotingSystem}
    (cast_ : poll.voting.castVote secp id voter choice votingPower signature = some (result, voting)) :
    Sound proposalId balances
      ⟨voting, if result ∧ id = proposalId then poll.accepted ++ [voter] else poll.accepted⟩ := by
  rcases poll.voting.castVote_cases cast_ with ⟨rfl, rfl⟩ | ⟨stored, found, outcome⟩
  · simpa using sound
  have same : (poll.voting.screen id stored).2.tallied = stored.tallied := by
    rcases poll.voting.screen_cases id stored with same | ⟨-, -, -, same⟩
    · rw [same]
    · rw [same]
      rfl
  have screened : Untouched proposalId balances poll.voting
      (poll.voting.setProposal id (poll.voting.screen id stored).2) :=
    untouched_write found rfl same rfl rfl rfl
  rcases outcome with ⟨rfl, rfl⟩ | ⟨effective, rfl, accepts, rfl⟩
  · simpa using sound.keep screened
  · by_cases this : id = proposalId
    · subst this
      simp only [and_self, if_true]
      refine ⟨accept_oneVote sound.oneVote sound.frozen accepts found same, ?_⟩
      exact ⟨sound.frozen.unguarded, sound.frozen.snapshot⟩
    · simp only [this, and_false, if_false]
      exact sound.keep (screened.trans (untouched_record this))

theorem orderly_step_sound {call : PollCall} {next : Poll} (sound : poll.Sound proposalId balances)
    (step : OrderlyStep secp proposalId poll call next) : next.Sound proposalId balances := by
  obtain ⟨orderly, taken⟩ := step
  cases call with
  | balances registry =>
      cases taken
      exact sound.keep ⟨rfl, fun proposal there => ⟨proposal, there, rfl⟩,
        fun frozen => ⟨frozen.unguarded, frozen.snapshot⟩⟩
  | voting call =>
      by_cases isVote : ∃ id voter choice votingPower signature,
          call = .castVote id voter choice votingPower signature
      · obtain ⟨id, voter, choice, votingPower, signature, rfl⟩ := isVote
        obtain ⟨⟨result, voting⟩, cast_, rfl⟩ := Option.map_eq_some_iff.mp taken
        exact castVote_sound sound cast_
      · have applied : (poll.voting.apply secp call).map (fun voting => { poll with voting }) =
            some next := by
          cases call with
          | castVote id voter choice votingPower signature =>
              exact absurd ⟨id, voter, choice, votingPower, signature, rfl⟩ isVote
          | _ => exact taken
        obtain ⟨voting, isNext, rfl⟩ := Option.map_eq_some_iff.mp applied
        refine sound.keep (untouched_apply isNext ?_ ?_)
        · rintro _ _ _ _ _ _ rfl
          exact orderly
        · rintro id voter choice votingPower signature rfl
          exact isVote ⟨id, voter, choice, votingPower, signature, rfl⟩

/-- The poll when its proposal was created, from balances that are not empty. -/
theorem create_sound {voting : VotingSystem} {snapshots : SnapshotRegistry}
    (attached : voting.snapshotRegistry = some snapshots)
    (registered : voting.balanceRegistry = some balances) (unguarded : voting.antiWhale = none)
    (holders : balances.balances ≠ ∅) (free : snapshots.hasSnapshot voting.nextProposalId = false)
    (unvoted : voting.getProposalVotes voting.nextProposalId = [])
    (proposer : Bytes) (type : ProposalType) (title description : String) (executionData : Bytes)
    (depositAmount : UInt64) :
    Sound voting.nextProposalId balances
      ⟨(voting.createProposal proposer type title description executionData depositAmount).2, []⟩ where
  oneVote :=
    { recorded := congrArg (List.map Vote.voter) unvoted
      distinct := List.nodup_nil
      holders := nofun
      powers := by
        intro vote listed
        have none_ : vote ∈ voting.getProposalVotes voting.nextProposalId := listed
        rw [unvoted] at none_
        cases none_
      tallied := ⟨_, ExtTreeMap.getElem?_insert_self, rfl⟩ }
  frozen := by
    refine ⟨unguarded, ?_⟩
    have powers : voting.votingPowers = balances.getAllVotingPowers := by
      unfold VotingSystem.votingPowers
      rw [registered]
    have some_ := balances.getAllVotingPowers_isEmpty holders
    simp only [VotingSystem.createProposal, VotingSystem.snapshotted, attached, Option.map_some,
      powers, some_, Bool.false_eq_true, if_false]
    obtain ⟨snapshot, found, entries⟩ := snapshots.createSnapshot_found free
      (voting.newProposal proposer type title description executionData depositAmount).votingStart
      balances.getAllVotingPowers
    exact ⟨_, snapshot, rfl, found, entries⟩

/-- A proposal that is created while someone holds tokens, under an id without a snapshot
and without votes, is decided by its holders, one vote each. -/
theorem orderly_run_oneVote (voting : VotingSystem) {snapshots : SnapshotRegistry}
    (attached : voting.snapshotRegistry = some snapshots)
    (registered : voting.balanceRegistry = some balances) (unguarded : voting.antiWhale = none)
    (holders : balances.balances ≠ ∅) (free : snapshots.hasSnapshot voting.nextProposalId = false)
    (unvoted : voting.getProposalVotes voting.nextProposalId = [])
    {proposer : Bytes} {type : ProposalType} {title description : String} {executionData : Bytes}
    {depositAmount : UInt64} {calls : List PollCall}
    (run : Run (OrderlyStep secp voting.nextProposalId)
      ⟨(voting.createProposal proposer type title description executionData depositAmount).2, []⟩
      calls poll) :
    poll.OneVote voting.nextProposalId balances := by
  have sound : poll.Sound voting.nextProposalId balances := by
    apply run.invariant (motive := Sound voting.nextProposalId balances)
    · exact create_sound attached registered unguarded holders free unvoted proposer type title
        description executionData depositAmount
    · intro poll call next sound step
      exact orderly_step_sound sound step
  exact sound.oneVote

/-- A voting system with a snapshot registry and the given balances. -/
def attached (balances : BalanceVotingRegistry) : VotingSystem :=
  { VotingSystem.new with snapshotRegistry := some ⟨∅⟩, balanceRegistry := some balances }

/-- Its first proposal. -/
def first (balances : BalanceVotingRegistry) : VotingSystem :=
  ((attached balances).createProposal [1] .general "title" "text" [] 0).2

/-- Nobody holds tokens when the proposal is created, and the voter claims the power five. -/
theorem run_not_oneVote :
    ¬ ∀ (secp : Secp256k1) (voting : VotingSystem) (snapshots : SnapshotRegistry)
      (balances : BalanceVotingRegistry) (proposer : Bytes) (type : ProposalType)
      (title description : String) (executionData : Bytes) (depositAmount : UInt64)
      (calls : List PollCall) (poll : Poll),
      voting.snapshotRegistry = some snapshots → voting.balanceRegistry = some balances →
      voting.antiWhale = none →
      calls.foldlM (after secp voting.nextProposalId)
        ⟨(voting.createProposal proposer type title description executionData depositAmount).2, []⟩ =
          some poll →
      poll.OneVote voting.nextProposalId balances := by
  intro claim
  have strong : ([PollCall.voting (.updateBlockHeight 100), .voting (.castVote 1
        SampleVoter.key.bytes .yes 5 SampleVoter.strongSignature.bytes)].foldlM
      (after SampleVoter.library 1) ⟨first .empty, []⟩).map
        (fun poll => (poll.voting.getProposalVotes 1).map Vote.votingPower) = some [5] := by
    decide +kernel
  obtain ⟨poll, run, powers⟩ := Option.map_eq_some_iff.mp strong
  have oneVote := claim _ (attached .empty) ⟨∅⟩ .empty _ _ _ _ _ _ _ poll rfl rfl rfl run
  obtain ⟨vote, listed, five⟩ := List.mem_map.mp (powers ▸ List.mem_cons_self :
    (5 : UInt64) ∈ (poll.voting.getProposalVotes 1).map Vote.votingPower)
  have one := oneVote.powers vote listed
  rw [five] at one
  cases one

/-- The voter holds seven tokens. -/
def holding : BalanceVotingRegistry :=
  (BalanceVotingRegistry.empty.updateBalance SampleVoter.key.bytes 7).getD .empty

/-- The vote is cast, and cast again. -/
def castTwice : List PollCall :=
  [.voting (.updateBlockHeight 100), .voting SampleVoter.castYes, .voting SampleVoter.castYes]

theorem orderly_run_oneVote_holding :
    ∃ poll, castTwice.foldlM (after SampleVoter.library 1) ⟨first holding, []⟩ = some poll ∧
      poll.accepted = [SampleVoter.key.bytes] ∧ poll.OneVote 1 holding := by
  have accepted : (castTwice.foldlM (after SampleVoter.library 1) ⟨first holding, []⟩).map
      Poll.accepted = some [SampleVoter.key.bytes] := by decide +kernel
  obtain ⟨poll, done, isAccepted⟩ := Option.map_eq_some_iff.mp accepted
  have each : EachInTurn (after SampleVoter.library 1) (Orderly 1) ⟨first holding, []⟩ castTwice := by
    decide +kernel
  have run : Run (OrderlyStep SampleVoter.library 1) ⟨first holding, []⟩ castTwice poll :=
    each.extend .start done
  have holders : holding.balances ≠ ∅ := by
    intro empty
    have size := congrArg ExtTreeMap.size empty
    revert size
    decide +kernel
  exact ⟨poll, done, isAccepted,
    orderly_run_oneVote (attached holding) rfl rfl rfl holders rfl rfl run⟩

end Poll

end Parthenon.Governance
