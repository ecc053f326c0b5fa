import Parthenon.Governance.Treasury

namespace Parthenon.Governance

open Library Std

/-! # Fee router

Each fee is split between its producer, the treasury and the burn by basis points.
The constructor sets a configuration and the statistics of every source.
-/

/-- The events of all governance modules. -/
inductive EventType
  | proposalCreated | proposalBouleApproved | proposalBouleRejected | proposalVoteCast
  | proposalPassed | proposalRejected | proposalExecuted | proposalExpired | proposalCancelled
  | proposalDepositPaid | proposalDepositReturned | proposalDepositSlashed
  | treasuryDeposit | treasurySpend | treasuryGrantCreated | treasuryMilestoneReleased
  | treasuryGrantRevoked | treasuryMultisigProposed | treasuryMultisigSigned
  | treasuryMultisigExecuted | treasuryBudgetCreated
  | stakeDeposited | stakeUnstakeRequested | stakeUnstakeClaimed | stakeSlashed
  | bouleCitizenRegistered | bouleSortitionConducted | bouleProposalReviewed
  | bouleChallengeRaised | bouleChallengeResolved
  | ostracismNominated | ostracismVoteCast | ostracismEnacted | ostracismRehabilitated
  | emergencyGuardianAdded | emergencyGuardianRemoved | emergencyActionProposed
  | emergencyActionSigned | emergencyActionExecuted
  | paramChanged
deriving DecidableEq, Repr

structure Event where
  eventId : UInt64
  type : EventType
  blockHeight : UInt64
  actor : Bytes
  referenceId : UInt64
  description : String
deriving DecidableEq, Repr

structure GovernanceEventLog where
  events : List Event
  nextEventId : UInt64
deriving DecidableEq, Repr

def GovernanceEventLog.log (eventLog : GovernanceEventLog) (type : EventType) (blockHeight : UInt64)
    (actor : Bytes) (referenceId : UInt64) (description : String) : GovernanceEventLog where
  events := eventLog.events ++ [⟨eventLog.nextEventId, type, blockHeight, actor, referenceId, description⟩]
  nextEventId := eventLog.nextEventId + 1

inductive FeeSource
  | l1Utxo | l2Validator | l3BaseFee | l3PriorityFee | bridgeFee | protocolFee
deriving DecidableEq, Repr

/-- The sources in the order of the statistics map. -/
def FeeSource.all : List FeeSource :=
  [.l1Utxo, .l2Validator, .l3BaseFee, .l3PriorityFee, .bridgeFee, .protocolFee]

def FeeSource.name : FeeSource → String
  | .l1Utxo => "L1_UTXO"
  | .l2Validator => "L2_VALIDATOR"
  | .l3BaseFee => "L3_BASE_FEE"
  | .l3PriorityFee => "L3_PRIORITY_FEE"
  | .bridgeFee => "BRIDGE_FEE"
  | .protocolFee => "PROTOCOL_FEE"

structure SplitConfig where
  producerBps : UInt32
  treasuryBps : UInt32
  burnBps : UInt32
  treasuryTrack : Track
deriving DecidableEq, Repr

def SplitConfig.isValid (cfg : SplitConfig) : Bool :=
  cfg.producerBps.toUInt64 + cfg.treasuryBps.toUInt64 + cfg.burnBps.toUInt64 == 10000

def FeeSource.defaultConfig : FeeSource → SplitConfig
  | .l1Utxo => ⟨8000, 1500, 500, .coreDevelopment⟩
  | .l2Validator => ⟨7000, 2000, 1000, .operations⟩
  | .l3BaseFee => ⟨0, 5000, 5000, .grants⟩
  | .l3PriorityFee => ⟨10000, 0, 0, .uncategorized⟩
  | .bridgeFee => ⟨0, 10000, 0, .operations⟩
  | .protocolFee => ⟨0, 10000, 0, .uncategorized⟩

theorem FeeSource.defaultConfig_valid (source : FeeSource) : source.defaultConfig.isValid = true := by
  cases source <;> rfl

structure RouteResult where
  source : FeeSource
  totalFee : UInt64
  producerAmount : UInt64
  treasuryAmount : UInt64
  burnAmount : UInt64
  treasuryDeposited : Bool
deriving DecidableEq, Repr

structure SourceStats where
  totalFeesRouted : UInt64
  totalToProducer : UInt64
  totalToTreasury : UInt64
  totalBurned : UInt64
  routeCount : UInt64
deriving DecidableEq, Repr

structure FeeRouter where
  treasury : Option Treasury
  eventLog : Option GovernanceEventLog
  configs : FeeSource → SplitConfig
  stats : FeeSource → SourceStats

namespace FeeRouter

def new (treasury : Option Treasury) (eventLog : Option GovernanceEventLog) : FeeRouter where
  treasury := treasury
  eventLog := eventLog
  configs := FeeSource.defaultConfig
  stats _ := ⟨0, 0, 0, 0, 0⟩

/-- The share of a fee.  A product that does not fit in 64 bits is divided first. -/
def share (totalFee : UInt64) (bps : UInt32) : UInt64 :=
  if bps = 0 ∨ totalFee ≤ 0xffffffffffffffff / bps.toUInt64 then totalFee * bps.toUInt64 / 10000
  else totalFee / 10000 * bps.toUInt64

/-- The amounts of a fee.  The burn is what is left, on 64 bits. -/
def split (cfg : SplitConfig) (source : FeeSource) (totalFee : UInt64) (deposited : Bool) :
    RouteResult where
  source := source
  totalFee := totalFee
  producerAmount := share totalFee cfg.producerBps
  treasuryAmount := share totalFee cfg.treasuryBps
  burnAmount := totalFee - share totalFee cfg.producerBps - share totalFee cfg.treasuryBps
  treasuryDeposited := deposited

end FeeRouter

def SourceStats.add (st : SourceStats) (result : RouteResult) : SourceStats where
  totalFeesRouted := st.totalFeesRouted + result.totalFee
  totalToProducer := st.totalToProducer + result.producerAmount
  totalToTreasury := st.totalToTreasury + result.treasuryAmount
  totalBurned := st.totalBurned + result.burnAmount
  routeCount := st.routeCount + 1

/-- The text that is logged for a fee. -/
def RouteResult.description (result : RouteResult) : String :=
  result.source.name ++ " fee routed: producer=" ++ toString result.producerAmount ++
    " treasury=" ++ toString result.treasuryAmount ++ " burn=" ++ toString result.burnAmount

namespace FeeRouter

/-- The deposit of the treasury's share, when a treasury is attached and the share is positive. -/
def depositShare (router : FeeRouter) (amount : UInt64) (producerAddress : Bytes) (track : Track)
    (blockHeight : UInt64) : Bool × Option Treasury :=
  match router.treasury with
  | none => (false, none)
  | some treasury =>
      if amount > 0 then
        let (deposited, after) := treasury.deposit amount producerAddress track blockHeight
        (deposited, some after)
      else (false, some treasury)

def route (router : FeeRouter) (source : FeeSource) (totalFee : UInt64) (producerAddress : Bytes)
    (blockHeight : UInt64) : RouteResult × FeeRouter :=
  let cfg := router.configs source
  let (deposited, treasury) :=
    router.depositShare (share totalFee cfg.treasuryBps) producerAddress cfg.treasuryTrack blockHeight
  let result := split cfg source totalFee deposited
  (result,
    { router with
      treasury
      stats := Function.update router.stats source ((router.stats source).add result)
      eventLog := router.eventLog.map fun eventLog =>
        eventLog.log .treasuryDeposit blockHeight producerAddress 0 result.description })

/-- A configuration is stored as it is given. -/
def setSplitConfig (router : FeeRouter) (source : FeeSource) (cfg : SplitConfig) : FeeRouter :=
  { router with configs := Function.update router.configs source cfg }

def getTotalStats (router : FeeRouter) : SourceStats :=
  FeeSource.all.foldl (fun total source =>
    let st := router.stats source
    { totalFeesRouted := total.totalFeesRouted + st.totalFeesRouted
      totalToProducer := total.totalToProducer + st.totalToProducer
      totalToTreasury := total.totalToTreasury + st.totalToTreasury
      totalBurned := total.totalBurned + st.totalBurned
      routeCount := total.routeCount + st.routeCount }) ⟨0, 0, 0, 0, 0⟩

end FeeRouter

end Parthenon.Governance
