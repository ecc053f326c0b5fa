import Parthenon.Governance.Vesting
import Std.Data.ExtTreeSet
import Mathlib.Logic.Function.Basic

namespace Parthenon.Governance

open Library Std

/-! # Treasury

Five balances with spending, multi-signature spending, budgets and milestone
grants.  The constructor sets every balance, so a balance is there for each
track; a budget that does not list a track has the limit and the spending zero.
-/

inductive Track
  | coreDevelopment | grants | operations | emergency | uncategorized
deriving DecidableEq, Repr

/-- The tracks in the order of the balance map. -/
def Track.all : List Track := [.coreDevelopment, .grants, .operations, .emergency, .uncategorized]

structure BudgetPeriod where
  periodId : UInt64
  startBlock : UInt64
  endBlock : UInt64
  trackLimits : Track → UInt64
  trackSpent : Track → UInt64

structure Milestone where
  description : String
  amount : UInt64
  released : Bool
  releasedAtBlock : UInt64
deriving DecidableEq, Repr

structure Grant where
  grantId : UInt64
  proposalId : UInt64
  recipient : Bytes
  purpose : String
  totalAmount : UInt64
  releasedAmount : UInt64
  revoked : Bool
  createdAtBlock : UInt64
  milestones : List Milestone
deriving DecidableEq, Repr

structure MultiSigSpend where
  spendId : UInt64
  amount : UInt64
  recipient : Bytes
  purpose : String
  initiator : Bytes
  createdAtBlock : UInt64
  executed : Bool
  executedAtBlock : UInt64
  signers : ExtTreeSet Bytes compare

structure TxRecord where
  txId : UInt64
  isDeposit : Bool
  amount : UInt64
  address : Bytes
  track : Track
  proposalId : UInt64
  grantId : UInt64
  purpose : String
  blockHeight : UInt64
deriving DecidableEq, Repr

structure Treasury where
  multisigRequired : UInt32
  reserveRatioBps : UInt64
  vestingRegistry : Option VestingRegistry
  balances : Track → UInt64
  guardians : List Bytes
  multisigSpends : ExtTreeMap UInt64 MultiSigSpend compare
  budgetPeriods : List BudgetPeriod
  grants : ExtTreeMap UInt64 Grant compare
  transactions : List TxRecord
  nextSpendId : UInt64
  nextPeriodId : UInt64
  nextGrantId : UInt64
  nextTxId : UInt64

namespace Treasury

def new (multisigRequired : UInt32) (reserveRatioBps : UInt64) : Treasury where
  multisigRequired := multisigRequired
  reserveRatioBps := reserveRatioBps
  vestingRegistry := none
  balances _ := 0
  guardians := []
  multisigSpends := ∅
  budgetPeriods := []
  grants := ∅
  transactions := []
  nextSpendId := 1
  nextPeriodId := 1
  nextGrantId := 1
  nextTxId := 1

def isGuardian (treasury : Treasury) (address : Bytes) : Bool := treasury.guardians.contains address

def addGuardian (treasury : Treasury) (address : Bytes) : Bool × Treasury :=
  if address.isEmpty then (false, treasury)
  else if treasury.isGuardian address then (false, treasury)
  else (true, { treasury with guardians := treasury.guardians ++ [address] })

def removeGuardian (treasury : Treasury) (address : Bytes) : Bool × Treasury :=
  if treasury.isGuardian address then
    (true, { treasury with guardians := treasury.guardians.erase address })
  else (false, treasury)

def recordTx (treasury : Treasury) (isDeposit : Bool) (amount : UInt64) (address : Bytes)
    (track : Track) (proposalId grantId : UInt64) (purpose : String) (blockHeight : UInt64) :
    Treasury :=
  let tx : TxRecord :=
    { txId := treasury.nextTxId
      isDeposit, amount, address, track, proposalId, grantId, purpose, blockHeight }
  { treasury with transactions := treasury.transactions ++ [tx], nextTxId := treasury.nextTxId + 1 }

def setBalance (treasury : Treasury) (track : Track) (amount : UInt64) : Treasury :=
  { treasury with balances := Function.update treasury.balances track amount }

def deposit (treasury : Treasury) (amount : UInt64) (sender : Bytes) (track : Track)
    (blockHeight : UInt64) : Bool × Treasury :=
  if amount = 0 then (false, treasury)
  else
    (true, (treasury.setBalance track (treasury.balances track + amount)).recordTx true amount sender
      track 0 0 "deposit" blockHeight)

def getTotalBalance (treasury : Treasury) : UInt64 :=
  Track.all.foldl (fun total track => total + treasury.balances track) 0

def getReserveBalance (treasury : Treasury) : UInt64 := treasury.balances .emergency

def violatesReserve (treasury : Treasury) (debitNonEmergency : UInt64) : Bool :=
  if treasury.reserveRatioBps = 0 then false
  else
    let total := treasury.getTotalBalance
    if total ≤ debitNonEmergency then true
    else
      let afterTotal := total - debitNonEmergency
      treasury.getReserveBalance * 10000 < afterTotal * treasury.reserveRatioBps

end Treasury

def BudgetPeriod.covers (bp : BudgetPeriod) (blockHeight : UInt64) : Bool :=
  bp.startBlock ≤ blockHeight && blockHeight ≤ bp.endBlock

namespace Treasury

/-- The first period that covers the height decides. -/
def isWithinBudget (treasury : Treasury) (track : Track) (amount blockHeight : UInt64) : Bool :=
  match treasury.budgetPeriods.find? (·.covers blockHeight) with
  | none => true
  | some bp => bp.trackLimits track = 0 || bp.trackSpent track + amount ≤ bp.trackLimits track

/-- The spending of the first period that covers the height grows. -/
def chargeBudget (track : Track) (amount blockHeight : UInt64) : List BudgetPeriod → List BudgetPeriod
  | [] => []
  | bp :: rest =>
      if bp.covers blockHeight then
        { bp with trackSpent := Function.update bp.trackSpent track (bp.trackSpent track + amount) }
          :: rest
      else bp :: chargeBudget track amount blockHeight rest

def spend (treasury : Treasury) (amount : UInt64) (recipient : Bytes) (proposalId : UInt64) (track : Track)
    (purpose : String) (blockHeight : UInt64) : Bool × Treasury :=
  if proposalId = 0 then (false, treasury)
  else if amount = 0 then (false, treasury)
  else if track = .emergency then (false, treasury)
  else if amount > treasury.balances track then (false, treasury)
  else if !treasury.isWithinBudget track amount blockHeight then (false, treasury)
  else if treasury.violatesReserve amount then (false, treasury)
  else
    let paid := treasury.setBalance track (treasury.balances track - amount)
    let charged :=
      { paid with budgetPeriods := chargeBudget track amount blockHeight paid.budgetPeriods }
    (true, charged.recordTx false amount recipient track proposalId 0 purpose blockHeight)

/-- The spend that `ProposeMultiSigSpend` stores.  The initiator is its first signer. -/
def newSpend (treasury : Treasury) (amount : UInt64) (recipient : Bytes) (purpose : String)
    (initiator : Bytes) (blockHeight : UInt64) : MultiSigSpend where
  spendId := treasury.nextSpendId
  amount := amount
  recipient := recipient
  purpose := purpose
  initiator := initiator
  createdAtBlock := blockHeight
  executed := false
  executedAtBlock := 0
  signers := (∅ : ExtTreeSet Bytes compare).insert initiator

def proposeMultiSigSpend (treasury : Treasury) (amount : UInt64) (recipient : Bytes) (purpose : String)
    (initiator : Bytes) (blockHeight : UInt64) : UInt64 × Treasury :=
  if amount = 0 ∨ recipient.isEmpty then (0, treasury)
  else if !treasury.isGuardian initiator then (0, treasury)
  else
    let spend := treasury.newSpend amount recipient purpose initiator blockHeight
    (spend.spendId,
      { treasury with
        multisigSpends := treasury.multisigSpends.insert spend.spendId spend
        nextSpendId := treasury.nextSpendId + 1 })

def signMultiSigSpend (treasury : Treasury) (spendId : UInt64) (guardian : Bytes) : Bool × Treasury :=
  if !treasury.isGuardian guardian then (false, treasury)
  else match treasury.multisigSpends[spendId]? with
  | none => (false, treasury)
  | some spend =>
      if spend.executed then (false, treasury)
      else
        (true,
          { treasury with
            multisigSpends := treasury.multisigSpends.insert spendId
              { spend with signers := spend.signers.insert guardian } })

def hasSufficientSignatures (treasury : Treasury) (spendId : UInt64) : Bool :=
  match treasury.multisigSpends[spendId]? with
  | none => false
  | some spend => UInt32.ofNat spend.signers.size ≥ treasury.multisigRequired

def executeMultiSigSpend (treasury : Treasury) (spendId blockHeight : UInt64) : Bool × Treasury :=
  match treasury.multisigSpends[spendId]? with
  | none => (false, treasury)
  | some spend =>
      if spend.executed then (false, treasury)
      else if !treasury.hasSufficientSignatures spendId then (false, treasury)
      else if spend.amount > treasury.balances .emergency then (false, treasury)
      else
        let paid := treasury.setBalance .emergency (treasury.balances .emergency - spend.amount)
        let done :=
          { paid with
            multisigSpends := paid.multisigSpends.insert spendId
              { spend with executed := true, executedAtBlock := blockHeight } }
        (true, done.recordTx false spend.amount spend.recipient .emergency 0 0 spend.purpose blockHeight)

def createBudgetPeriod (treasury : Treasury) (startBlock endBlock : UInt64) (limits : Track → UInt64)
    (proposalId : UInt64) : UInt64 × Treasury :=
  if proposalId = 0 then (0, treasury)
  else if endBlock ≤ startBlock then (0, treasury)
  else
    let bp : BudgetPeriod :=
      { periodId := treasury.nextPeriodId
        startBlock, endBlock, trackLimits := limits
        trackSpent := fun _ => 0 }
    (bp.periodId,
      { treasury with
        budgetPeriods := treasury.budgetPeriods ++ [bp]
        nextPeriodId := treasury.nextPeriodId + 1 })

/-- The amounts are added up on 64 bits. -/
def milestoneTotal (milestones : List (String × UInt64)) : UInt64 :=
  milestones.foldl (fun total milestone => total + milestone.2) 0

/-- The grant that `CreateGrant` stores. -/
def newGrant (treasury : Treasury) (proposalId : UInt64) (recipient : Bytes) (purpose : String)
    (milestones : List (String × UInt64)) (blockHeight : UInt64) : Grant where
  grantId := treasury.nextGrantId
  proposalId := proposalId
  recipient := recipient
  purpose := purpose
  totalAmount := milestoneTotal milestones
  releasedAmount := 0
  revoked := false
  createdAtBlock := blockHeight
  milestones := milestones.map fun milestone => ⟨milestone.1, milestone.2, false, 0⟩

end Treasury

/-- The schedule of a grant, which is made for a positive duration. -/
def VestingRegistry.scheduleGrant (registry : VestingRegistry) (grant : Grant)
    (blockHeight vestingCliffBlocks vestingDurationBlocks : UInt64) : VestingRegistry :=
  if vestingDurationBlocks > 0 then
    (registry.createSchedule grant.recipient grant.totalAmount blockHeight vestingCliffBlocks
      vestingDurationBlocks grant.grantId).2
  else registry

namespace Treasury

def createGrant (treasury : Treasury) (proposalId : UInt64) (recipient : Bytes) (purpose : String)
    (milestones : List (String × UInt64))
    (blockHeight vestingCliffBlocks vestingDurationBlocks : UInt64) : UInt64 × Treasury :=
  if proposalId = 0 ∨ recipient.isEmpty ∨ milestones.isEmpty then (0, treasury)
  else
    let total := milestoneTotal milestones
    if total = 0 then (0, treasury)
    else if total > treasury.balances .grants then (0, treasury)
    else
      let grant := treasury.newGrant proposalId recipient purpose milestones blockHeight
      let reserved := treasury.setBalance .grants (treasury.balances .grants - total)
      (grant.grantId,
        { reserved with
          grants := reserved.grants.insert grant.grantId grant
          nextGrantId := reserved.nextGrantId + 1
          vestingRegistry := reserved.vestingRegistry.map fun registry =>
            registry.scheduleGrant grant blockHeight vestingCliffBlocks vestingDurationBlocks })

end Treasury

/-- The grant with one milestone released. -/
def Grant.release (grant : Grant) (index : Nat) (ms : Milestone) (blockHeight : UInt64) : Grant :=
  { grant with
    milestones := grant.milestones.set index
      { ms with released := true, releasedAtBlock := blockHeight }
    releasedAmount := grant.releasedAmount + ms.amount }

namespace Treasury

def releaseMilestone (treasury : Treasury) (grantId : UInt64) (milestoneIndex : UInt32)
    (proposalId blockHeight : UInt64) : Bool × Treasury :=
  if proposalId = 0 then (false, treasury)
  else match treasury.grants[grantId]? with
  | none => (false, treasury)
  | some grant =>
      if grant.revoked then (false, treasury)
      else match grant.milestones[milestoneIndex.toNat]? with
      | none => (false, treasury)
      | some ms =>
          if ms.released then (false, treasury)
          else
            let released := grant.release milestoneIndex.toNat ms blockHeight
            (true,
              { treasury with grants := treasury.grants.insert grantId released }.recordTx false
                ms.amount grant.recipient .grants proposalId grantId grant.purpose blockHeight)

end Treasury

/-- What `RevokeGrant` gives back, added up on 64 bits. -/
def Grant.refund (grant : Grant) : UInt64 :=
  grant.milestones.foldl (fun refund ms => if ms.released then refund else refund + ms.amount) 0

namespace Treasury

def revokeGrant (treasury : Treasury) (grantId proposalId blockHeight : UInt64) : Bool × Treasury :=
  if proposalId = 0 then (false, treasury)
  else match treasury.grants[grantId]? with
  | none => (false, treasury)
  | some grant =>
      if grant.revoked then (false, treasury)
      else
        let refunded := treasury.setBalance .grants (treasury.balances .grants + grant.refund)
        (true,
          { refunded with
            grants := refunded.grants.insert grantId { grant with revoked := true } }.recordTx true
              grant.refund grant.recipient .grants proposalId grantId "grant revoked – refund"
              blockHeight)

end Treasury

end Parthenon.Governance
