import Parthenon.Library.ByteCodec

namespace Parthenon.Governance

open Library

/-! # Governance parameters

The configuration that an executed proposal may change, within fixed limits.
-/

structure Params where
  votingDelayBlocks : UInt64
  votingPeriodBlocks : UInt64
  executionDelayBlocks : UInt64
  maxProposalAgeBlocks : UInt64
  defaultQuorum : UInt64
  defaultThresholdBps : UInt64
  constitutionalThresholdBps : UInt64
  minProposalDeposit : UInt64
  slashDepositOnRejection : Bool
  slashDepositOnSpam : Bool
  quadraticVotingEnabled : Bool
  maxVotingPowerCap : UInt64
  whaleThresholdBps : UInt64
  bouleSize : UInt32
  bouleTermBlocks : UInt64
  bouleMinStake : UInt64
  bouleScreeningRequired : Bool
  vetoThresholdBps : UInt64
  ostracismBanDurationBlocks : UInt64
  ostracismRequiredVotes : UInt64
deriving DecidableEq, Repr

def Params.defaults : Params where
  votingDelayBlocks := 100
  votingPeriodBlocks := 10000
  executionDelayBlocks := 1000
  maxProposalAgeBlocks := 50400
  defaultQuorum := 1000000
  defaultThresholdBps := 5000
  constitutionalThresholdBps := 6667
  minProposalDeposit := 0
  slashDepositOnRejection := false
  slashDepositOnSpam := false
  quadraticVotingEnabled := false
  maxVotingPowerCap := 0
  whaleThresholdBps := 1000
  bouleSize := 21
  bouleTermBlocks := 50400
  bouleMinStake := 0
  bouleScreeningRequired := true
  vetoThresholdBps := 3334
  ostracismBanDurationBlocks := 50400
  ostracismRequiredVotes := 10

/-- The keys that `UpdateParam` knows. -/
inductive ParamKey
  | votingDelayBlocks | votingPeriodBlocks | executionDelayBlocks | maxProposalAgeBlocks
  | defaultQuorum | defaultThresholdBps | constitutionalThresholdBps | minProposalDeposit
  | maxVotingPowerCap | whaleThresholdBps | bouleSize | bouleTermBlocks | bouleMinStake
  | vetoThresholdBps | ostracismBanDurationBlocks | ostracismRequiredVotes
deriving DecidableEq, Repr

namespace ParamKey

/-- The keys in the order they are compared. -/
def all : List ParamKey :=
  [.votingDelayBlocks, .votingPeriodBlocks, .executionDelayBlocks, .maxProposalAgeBlocks,
   .defaultQuorum, .defaultThresholdBps, .constitutionalThresholdBps, .minProposalDeposit,
   .maxVotingPowerCap, .whaleThresholdBps, .bouleSize, .bouleTermBlocks, .bouleMinStake,
   .vetoThresholdBps, .ostracismBanDurationBlocks, .ostracismRequiredVotes]

def name : ParamKey → String
  | votingDelayBlocks => "voting_delay_blocks"
  | votingPeriodBlocks => "voting_period_blocks"
  | executionDelayBlocks => "execution_delay_blocks"
  | maxProposalAgeBlocks => "max_proposal_age_blocks"
  | defaultQuorum => "default_quorum"
  | defaultThresholdBps => "default_threshold_bps"
  | constitutionalThresholdBps => "constitutional_threshold_bps"
  | minProposalDeposit => "min_proposal_deposit"
  | maxVotingPowerCap => "max_voting_power_cap"
  | whaleThresholdBps => "whale_threshold_bps"
  | bouleSize => "boule_size"
  | bouleTermBlocks => "boule_term_blocks"
  | bouleMinStake => "boule_min_stake"
  | vetoThresholdBps => "veto_threshold_bps"
  | ostracismBanDurationBlocks => "ostracism_ban_duration_blocks"
  | ostracismRequiredVotes => "ostracism_required_votes"

/-- The key that a byte string spells. -/
def ofBytes? (bytes : Bytes) : Option ParamKey :=
  all.find? fun key => key.name.toUTF8.toList == bytes

end ParamKey

namespace Params

def get (params : Params) : ParamKey → UInt64
  | .votingDelayBlocks => params.votingDelayBlocks
  | .votingPeriodBlocks => params.votingPeriodBlocks
  | .executionDelayBlocks => params.executionDelayBlocks
  | .maxProposalAgeBlocks => params.maxProposalAgeBlocks
  | .defaultQuorum => params.defaultQuorum
  | .defaultThresholdBps => params.defaultThresholdBps
  | .constitutionalThresholdBps => params.constitutionalThresholdBps
  | .minProposalDeposit => params.minProposalDeposit
  | .maxVotingPowerCap => params.maxVotingPowerCap
  | .whaleThresholdBps => params.whaleThresholdBps
  | .bouleSize => params.bouleSize.toUInt64
  | .bouleTermBlocks => params.bouleTermBlocks
  | .bouleMinStake => params.bouleMinStake
  | .vetoThresholdBps => params.vetoThresholdBps
  | .ostracismBanDurationBlocks => params.ostracismBanDurationBlocks
  | .ostracismRequiredVotes => params.ostracismRequiredVotes

def set (params : Params) (value : UInt64) : ParamKey → Params
  | .votingDelayBlocks => { params with votingDelayBlocks := value }
  | .votingPeriodBlocks => { params with votingPeriodBlocks := value }
  | .executionDelayBlocks => { params with executionDelayBlocks := value }
  | .maxProposalAgeBlocks => { params with maxProposalAgeBlocks := value }
  | .defaultQuorum => { params with defaultQuorum := value }
  | .defaultThresholdBps => { params with defaultThresholdBps := value }
  | .constitutionalThresholdBps => { params with constitutionalThresholdBps := value }
  | .minProposalDeposit => { params with minProposalDeposit := value }
  | .maxVotingPowerCap => { params with maxVotingPowerCap := value }
  | .whaleThresholdBps => { params with whaleThresholdBps := value }
  | .bouleSize => { params with bouleSize := value.toUInt32 }
  | .bouleTermBlocks => { params with bouleTermBlocks := value }
  | .bouleMinStake => { params with bouleMinStake := value }
  | .vetoThresholdBps => { params with vetoThresholdBps := value }
  | .ostracismBanDurationBlocks => { params with ostracismBanDurationBlocks := value }
  | .ostracismRequiredVotes => { params with ostracismRequiredVotes := value }

end Params

/-- The keys that `UpdateBoolParam` knows. -/
inductive BoolParamKey
  | quadraticVotingEnabled | slashDepositOnRejection | slashDepositOnSpam | bouleScreeningRequired
deriving DecidableEq, Repr

namespace BoolParamKey

/-- The keys in the order they are compared. -/
def all : List BoolParamKey :=
  [.quadraticVotingEnabled, .slashDepositOnRejection, .slashDepositOnSpam, .bouleScreeningRequired]

def name : BoolParamKey → String
  | quadraticVotingEnabled => "quadratic_voting_enabled"
  | slashDepositOnRejection => "slash_deposit_on_rejection"
  | slashDepositOnSpam => "slash_deposit_on_spam"
  | bouleScreeningRequired => "boule_screening_required"

/-- The key that a byte string spells. -/
def ofBytes? (bytes : Bytes) : Option BoolParamKey :=
  all.find? fun key => key.name.toUTF8.toList == bytes

end BoolParamKey

namespace Params

def getBool (params : Params) : BoolParamKey → Bool
  | .quadraticVotingEnabled => params.quadraticVotingEnabled
  | .slashDepositOnRejection => params.slashDepositOnRejection
  | .slashDepositOnSpam => params.slashDepositOnSpam
  | .bouleScreeningRequired => params.bouleScreeningRequired

def setBool (params : Params) (value : Bool) : BoolParamKey → Params
  | .quadraticVotingEnabled => { params with quadraticVotingEnabled := value }
  | .slashDepositOnRejection => { params with slashDepositOnRejection := value }
  | .slashDepositOnSpam => { params with slashDepositOnSpam := value }
  | .bouleScreeningRequired => { params with bouleScreeningRequired := value }

end Params

/-- The limits of a value.  A key without limits takes any value. -/
def ParamKey.validateUint (key : ParamKey) (value : UInt64) : Bool :=
  match key with
  | .vetoThresholdBps => value ≥ 1000 && value ≤ 5000
  | .votingPeriodBlocks => value ≥ 100 && value ≤ 504000
  | .constitutionalThresholdBps => value ≥ 5001 && value ≤ 10000
  | .defaultThresholdBps => value ≥ 3334 && value ≤ 10000
  | .bouleSize => value ≥ 1 && value ≤ 500
  | .votingDelayBlocks | .executionDelayBlocks => value > 0
  | _ => true

theorem Params.defaults_valid (key : ParamKey) :
    key.validateUint (Params.defaults.get key) = true := by
  cases key <;> rfl

structure ParamChange where
  key : Bytes
  oldValue : UInt64
  newValue : UInt64
  proposalId : UInt64
  changedAtBlock : UInt64
deriving DecidableEq, Repr

structure GovernanceParams where
  params : Params
  history : List ParamChange
deriving DecidableEq, Repr

namespace GovernanceParams

/-- An unknown key passes the limits and is refused after them. -/
def updateParam (govParams : GovernanceParams) (key : Bytes) (value proposalId blockHeight : UInt64) :
    Bool × GovernanceParams :=
  if proposalId = 0 then (false, govParams)
  else match ParamKey.ofBytes? key with
  | none => (false, govParams)
  | some known =>
      if !known.validateUint value then (false, govParams)
      else
        (true,
          { params := govParams.params.set value known
            history := govParams.history ++
              [⟨key, govParams.params.get known, value, proposalId, blockHeight⟩] })

/-- Switches are recorded as one and zero. -/
def updateBoolParam (govParams : GovernanceParams) (key : Bytes) (value : Bool)
    (proposalId blockHeight : UInt64) : Bool × GovernanceParams :=
  if proposalId = 0 then (false, govParams)
  else match BoolParamKey.ofBytes? key with
  | none => (false, govParams)
  | some known =>
      (true,
        { params := govParams.params.setBool value known
          history := govParams.history ++
            [⟨key, if govParams.params.getBool known then 1 else 0, if value then 1 else 0,
              proposalId, blockHeight⟩] })

theorem updateParam_valid {govParams : GovernanceParams} (key : Bytes)
    (value proposalId blockHeight : UInt64)
    (valid : ∀ key : ParamKey, key.validateUint (govParams.params.get key) = true)
    (known : ParamKey) :
    known.validateUint
      ((govParams.updateParam key value proposalId blockHeight).2.params.get known) = true := by
  unfold updateParam
  split
  · exact valid known
  split
  · exact valid known
  rename_i changed found
  cases within : changed.validateUint value with
  | false => exact valid known
  | true =>
      simp only [Bool.not_true, Bool.false_eq_true, if_false]
      by_cases same : known = changed
      · subst same
        cases known
        case bouleSize =>
          have small : value ≤ 500 := by
            simp only [ParamKey.validateUint, Bool.and_eq_true, decide_eq_true_eq] at within
            exact within.2
          have kept : value.toUInt32.toUInt64 = value := by
            apply UInt64.toNat.inj
            have smallNat : value.toNat ≤ 500 := UInt64.le_iff_toNat_le.mp small
            rw [UInt32.toNat_toUInt64, UInt64.toNat_toUInt32]
            omega
          simpa only [Params.get, Params.set, kept] using within
        all_goals exact within
      · have kept : (govParams.params.set value changed).get known = govParams.params.get known := by
          cases changed <;> cases known <;> first | rfl | exact absurd rfl same
        rw [kept]
        exact valid known

end GovernanceParams

end Parthenon.Governance
