import Parthenon.Governance.Voting

namespace Parthenon.Governance

open Library

/-! # The history of the parameters

However the parameters were changed, they are within their limits, and the
history leads from the defaults to them, change by change.
-/

structure Limits where
  minVotingPeriodBlocks : UInt64
  maxVotingPeriodBlocks : UInt64
  minConstitutionalThreshold : UInt64
  minDefaultThreshold : UInt64
  maxBouleSize : UInt64
  minVetoThreshold : UInt64
  maxVetoThreshold : UInt64
deriving DecidableEq, Repr

def kLimits : Limits where
  minVotingPeriodBlocks := 100
  maxVotingPeriodBlocks := 504000
  minConstitutionalThreshold := 5001
  minDefaultThreshold := 3334
  maxBouleSize := 500
  minVetoThreshold := 1000
  maxVetoThreshold := 5000

namespace Params

/-- The declared limits, and the bounds that are checked beside them. -/
structure WithinLimits (params : Params) : Prop where
  votingPeriod : kLimits.minVotingPeriodBlocks ≤ params.votingPeriodBlocks ∧
    params.votingPeriodBlocks ≤ kLimits.maxVotingPeriodBlocks
  constitutionalThreshold : kLimits.minConstitutionalThreshold ≤ params.constitutionalThresholdBps ∧
    params.constitutionalThresholdBps ≤ 10000
  defaultThreshold : kLimits.minDefaultThreshold ≤ params.defaultThresholdBps ∧
    params.defaultThresholdBps ≤ 10000
  bouleSize : 1 ≤ params.bouleSize.toUInt64 ∧ params.bouleSize.toUInt64 ≤ kLimits.maxBouleSize
  vetoThreshold : kLimits.minVetoThreshold ≤ params.vetoThresholdBps ∧
    params.vetoThresholdBps ≤ kLimits.maxVetoThreshold
  votingDelay : 0 < params.votingDelayBlocks
  executionDelay : 0 < params.executionDelayBlocks

theorem withinLimits_of_valid {params : Params}
    (valid : ∀ key : ParamKey, key.validateUint (params.get key) = true) : params.WithinLimits := by
  have range : ∀ {low high value : UInt64},
      (decide (value ≥ low) && decide (value ≤ high)) = true → low ≤ value ∧ value ≤ high := by
    intro low high value both
    rw [Bool.and_eq_true, decide_eq_true_eq, decide_eq_true_eq] at both
    exact both
  exact
    { votingPeriod := range (valid .votingPeriodBlocks)
      constitutionalThreshold := range (valid .constitutionalThresholdBps)
      defaultThreshold := range (valid .defaultThresholdBps)
      bouleSize := range (valid .bouleSize)
      vetoThreshold := range (valid .vetoThresholdBps)
      votingDelay := of_decide_eq_true (valid .votingDelayBlocks)
      executionDelay := of_decide_eq_true (valid .executionDelayBlocks) }

theorem get_setBool (params : Params) (value : Bool) (known : BoolParamKey) (key : ParamKey) :
    (params.setBool value known).get key = params.get key := by
  cases known <;> cases key <;> rfl

/-! ## Replay -/

/-- The value that a key names: a number, or a switch as one or zero. -/
def read? (params : Params) (key : Bytes) : Option UInt64 :=
  match BoolParamKey.ofBytes? key with
  | some known => some (if params.getBool known then 1 else 0)
  | none => (ParamKey.ofBytes? key).map params.get

def write? (params : Params) (key : Bytes) (value : UInt64) : Option Params :=
  match BoolParamKey.ofBytes? key with
  | some known => some (params.setBool (value ≠ 0) known)
  | none => (ParamKey.ofBytes? key).map (params.set value)

/-- One recorded change.  It fails when its key names nothing or its old value is
not the value there. -/
def redo (params : Params) (change : ParamChange) : Option Params :=
  if params.read? change.key = some change.oldValue then params.write? change.key change.newValue
  else none

def replay (params : Params) (history : List ParamChange) : Option Params :=
  history.foldlM redo params

theorem replay_append {params reached after : Params} {history : List ParamChange}
    {change : ParamChange} (replayed : params.replay history = some reached)
    (redone : reached.redo change = some after) :
    params.replay (history ++ [change]) = some after := by
  unfold replay at replayed ⊢
  rw [List.foldlM_append, replayed]
  simpa using redone

end Params

/-- No name is both a number's and a switch's. -/
theorem ParamKey.not_bool {bytes : Bytes} {known : ParamKey}
    (found : ParamKey.ofBytes? bytes = some known) : BoolParamKey.ofBytes? bytes = none := by
  have spelled := List.find?_some found
  obtain rfl := eq_of_beq spelled
  cases known <;> decide +kernel

namespace GovernanceParams

def new : GovernanceParams := ⟨Params.defaults, []⟩

variable (govParams : GovernanceParams)

/-- An update is refused, or writes an authorised value that passes the check of a known key. -/
theorem updateParam_cases (key : Bytes) (value proposalId blockHeight : UInt64) :
    govParams.updateParam key value proposalId blockHeight = (false, govParams) ∨
    ∃ known, ParamKey.ofBytes? key = some known ∧ proposalId ≠ 0 ∧ known.validateUint value = true ∧
      govParams.updateParam key value proposalId blockHeight =
        (true,
          { params := govParams.params.set value known
            history := govParams.history ++
              [⟨key, govParams.params.get known, value, proposalId, blockHeight⟩] }) := by
  unfold updateParam
  by_cases unauthorised : proposalId = 0
  · exact .inl (if_pos unauthorised)
  rw [if_neg unauthorised]
  cases found : ParamKey.ofBytes? key with
  | none => exact .inl rfl
  | some known =>
      cases within : known.validateUint value with
      | false => exact .inl (by simp [within])
      | true => exact .inr ⟨known, rfl, unauthorised, within, by simp [within]⟩

theorem updateBoolParam_cases (key : Bytes) (value : Bool) (proposalId blockHeight : UInt64) :
    govParams.updateBoolParam key value proposalId blockHeight = (false, govParams) ∨
    ∃ known, BoolParamKey.ofBytes? key = some known ∧
      govParams.updateBoolParam key value proposalId blockHeight =
        (true,
          { params := govParams.params.setBool value known
            history := govParams.history ++
              [⟨key, if govParams.params.getBool known then 1 else 0, if value then 1 else 0,
                proposalId, blockHeight⟩] }) := by
  unfold updateBoolParam
  split
  · exact .inl rfl
  cases found : BoolParamKey.ofBytes? key with
  | none => exact .inl rfl
  | some known => exact .inr ⟨known, rfl, rfl⟩

/-- What can happen to the parameters.  A proposal is executed by a voting system
in any state that has them attached. -/
inductive Call
  | updateParam (key : Bytes) (value proposalId blockHeight : UInt64)
  | updateBoolParam (key : Bytes) (value : Bool) (proposalId blockHeight : UInt64)
  | executeProposal (voting : VotingSystem) (proposalId : UInt64)

/-- What a call returns, and the parameters after it. -/
def apply : Call → Bool × GovernanceParams
  | .updateParam key value proposalId blockHeight =>
      govParams.updateParam key value proposalId blockHeight
  | .updateBoolParam key value proposalId blockHeight =>
      govParams.updateBoolParam key value proposalId blockHeight
  | .executeProposal voting proposalId =>
      let (executed, after) := { voting with govParams := some govParams }.executeProposal proposalId
      (executed, after.govParams.getD govParams)

/-- An execution leaves the parameters, or makes the update its data spell. -/
theorem executeProposal_cases (voting : VotingSystem) (id : UInt64) :
    (govParams.apply (.executeProposal voting id)).2 = govParams ∨
    ∃ key value proposalId blockHeight, (govParams.apply (.executeProposal voting id)) =
      (true, (govParams.updateParam key value proposalId blockHeight).2) := by
  simp only [apply, VotingSystem.executeProposal]
  cases found : voting.proposals[id]? with
  | none => exact .inl rfl
  | some proposal =>
      dsimp only
      split
      · exact .inl rfl
      split
      · exact .inl rfl
      cases handled : voting.executionHandler with
      | some handler =>
          dsimp only
          split
          · exact .inl rfl
          · exact .inl rfl
      | none =>
          dsimp only
          unfold VotingSystem.dispatch
          cases proposal.type with
          | parameterChange =>
              simp only [VotingSystem.dispatchParameterChange, Option.map_some,
                VotingSystem.setProposal, Option.getD_some]
              split
              · exact .inr ⟨_, _, _, _, rfl⟩
              · exact .inl rfl
          | treasurySpending => exact .inl rfl
          | protocolUpgrade => exact .inl rfl
          | general => exact .inl rfl
          | constitutional => exact .inl rfl
          | emergency => exact .inl rfl

/-- Within the limits, reached from the defaults by the history, and left alone
by every call that is refused. -/
structure Accounted : Prop where
  withinLimits : govParams.params.WithinLimits
  replays : Params.defaults.replay govParams.history = some govParams.params
  refused : ∀ call, (govParams.apply call).1 = false → (govParams.apply call).2 = govParams

/-- The invariant: each parameter passes its own check. -/
structure Sound : Prop where
  valid : ∀ key : ParamKey, key.validateUint (govParams.params.get key) = true
  replays : Params.defaults.replay govParams.history = some govParams.params

variable {govParams : GovernanceParams}

theorem new_sound : new.Sound where
  valid := Params.defaults_valid
  replays := rfl

theorem Sound.updateParam (sound : govParams.Sound) (key : Bytes)
    (value proposalId blockHeight : UInt64) :
    (govParams.updateParam key value proposalId blockHeight).2.Sound := by
  refine ⟨updateParam_valid key value proposalId blockHeight sound.valid, ?_⟩
  obtain same | ⟨known, found, -, -, changed⟩ :=
    govParams.updateParam_cases key value proposalId blockHeight
  · rw [same]
    exact sound.replays
  · rw [changed]
    refine Params.replay_append sound.replays ?_
    unfold Params.redo Params.read? Params.write?
    simp only [ParamKey.not_bool found, found, Option.map_some, if_true]

theorem Sound.updateBoolParam (sound : govParams.Sound) (key : Bytes) (value : Bool)
    (proposalId blockHeight : UInt64) :
    (govParams.updateBoolParam key value proposalId blockHeight).2.Sound := by
  obtain same | ⟨known, found, changed⟩ :=
    govParams.updateBoolParam_cases key value proposalId blockHeight
  · rw [same]
    exact sound
  · rw [changed]
    refine ⟨fun key => ?_, Params.replay_append sound.replays ?_⟩
    · rw [Params.get_setBool]
      exact sound.valid key
    · unfold Params.redo Params.read? Params.write?
      simp only [found, if_true]
      cases value <;> rfl

theorem Sound.apply (sound : govParams.Sound) (call : Call) : (govParams.apply call).2.Sound := by
  cases call with
  | updateParam key value proposalId blockHeight =>
      exact sound.updateParam key value proposalId blockHeight
  | updateBoolParam key value proposalId blockHeight =>
      exact sound.updateBoolParam key value proposalId blockHeight
  | executeProposal voting id =>
      obtain same | ⟨key, value, proposalId, blockHeight, updated⟩ :=
        govParams.executeProposal_cases voting id
      · rw [same]
        exact sound
      · rw [updated]
        exact sound.updateParam key value proposalId blockHeight

theorem run_sound (calls : List Call) :
    (calls.foldl (fun state call => (state.apply call).2) new).Sound := by
  suffices ∀ start : GovernanceParams, start.Sound →
      (calls.foldl (fun state call => (state.apply call).2) start).Sound from this new new_sound
  induction calls with
  | nil => exact fun _ sound => sound
  | cons call rest ih => exact fun start sound => ih _ (sound.apply call)

theorem rejected_unchanged (call : Call) (rejected : (govParams.apply call).1 = false) :
    (govParams.apply call).2 = govParams := by
  cases call with
  | updateParam key value proposalId blockHeight =>
      obtain same | ⟨known, -, -, -, changed⟩ :=
        govParams.updateParam_cases key value proposalId blockHeight
      · exact congrArg Prod.snd same
      · cases (congrArg Prod.fst changed).symm.trans rejected
  | updateBoolParam key value proposalId blockHeight =>
      obtain same | ⟨known, -, changed⟩ :=
        govParams.updateBoolParam_cases key value proposalId blockHeight
      · exact congrArg Prod.snd same
      · cases (congrArg Prod.fst changed).symm.trans rejected
  | executeProposal voting id =>
      obtain same | ⟨key, value, proposalId, blockHeight, updated⟩ :=
        govParams.executeProposal_cases voting id
      · exact same
      · cases (congrArg Prod.fst updated).symm.trans rejected

/-- After every sequence of calls the parameters are accounted for. -/
theorem run_accounted (calls : List Call) :
    (calls.foldl (fun state call => (state.apply call).2) new).Accounted := by
  have sound := run_sound calls
  exact
    { withinLimits := Params.withinLimits_of_valid sound.valid
      replays := sound.replays
      refused := rejected_unchanged }

end GovernanceParams

end Parthenon.Governance
