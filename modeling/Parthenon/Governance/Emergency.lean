import Parthenon.Library.ByteCodec
import Parthenon.Library.OrderedMap
import Std.Data.ExtTreeSet

namespace Parthenon.Governance

open Library Std

/-! # Emergency council

Guardians sign actions, which expire if they are not executed in time.
-/

inductive ActionType
  | pauseGovernance | cancelProposal | fastTrackUpgrade | custom
deriving DecidableEq, Repr

structure Action where
  actionId : UInt64
  type : ActionType
  description : String
  initiator : Bytes
  targetProposalId : UInt64
  proposedAtBlock : UInt64
  expiresAtBlock : UInt64
  executed : Bool
  executedAtBlock : UInt64
  signers : ExtTreeSet Bytes compare

structure Guardian where
  address : Bytes
  role : String
  addedAtBlock : UInt64
deriving DecidableEq, Repr

structure EmergencyCouncil where
  requiredSigs : UInt32
  actionTtl : UInt64
  governancePaused : Bool
  guardians : List Guardian
  actions : ExtTreeMap UInt64 Action compare
  nextActionId : UInt64

namespace EmergencyCouncil

def new (requiredSigs : UInt32) (actionTtlBlocks : UInt64) : EmergencyCouncil where
  requiredSigs := requiredSigs
  actionTtl := actionTtlBlocks
  governancePaused := false
  guardians := []
  actions := ∅
  nextActionId := 1

def isGuardian (council : EmergencyCouncil) (address : Bytes) : Bool :=
  council.guardians.any (·.address == address)

def addGuardian (council : EmergencyCouncil) (address : Bytes) (role : String)
    (blockHeight : UInt64) : Bool × EmergencyCouncil :=
  if address.isEmpty then (false, council)
  else if council.isGuardian address then (false, council)
  else (true, { council with guardians := council.guardians ++ [⟨address, role, blockHeight⟩] })

def removeGuardian (council : EmergencyCouncil) (address : Bytes) : Bool × EmergencyCouncil :=
  if council.isGuardian address then
    (true, { council with guardians := council.guardians.eraseP (·.address == address) })
  else (false, council)

/-- The action that `ProposeAction` stores.  The initiator is its first signer. -/
def newAction (council : EmergencyCouncil) (type : ActionType) (description : String)
    (initiator : Bytes) (targetProposalId blockHeight : UInt64) : Action where
  actionId := council.nextActionId
  type := type
  description := description
  initiator := initiator
  targetProposalId := targetProposalId
  proposedAtBlock := blockHeight
  expiresAtBlock := blockHeight + council.actionTtl
  executed := false
  executedAtBlock := 0
  signers := (∅ : ExtTreeSet Bytes compare).insert initiator

def proposeAction (council : EmergencyCouncil) (type : ActionType) (description : String)
    (initiator : Bytes) (targetProposalId blockHeight : UInt64) : UInt64 × EmergencyCouncil :=
  if !council.isGuardian initiator then (0, council)
  else
    let action := council.newAction type description initiator targetProposalId blockHeight
    (action.actionId,
      { council with
        actions := council.actions.insert action.actionId action
        nextActionId := council.nextActionId + 1 })

/-- An action that is not there has expired. -/
def isExpired (council : EmergencyCouncil) (actionId blockHeight : UInt64) : Bool :=
  match council.actions[actionId]? with
  | none => true
  | some action => blockHeight > action.expiresAtBlock

def signAction (council : EmergencyCouncil) (actionId : UInt64) (guardian : Bytes)
    (blockHeight : UInt64) : Bool × EmergencyCouncil :=
  if !council.isGuardian guardian then (false, council)
  else match council.actions[actionId]? with
  | none => (false, council)
  | some action =>
      if action.executed then (false, council)
      else if council.isExpired actionId blockHeight then (false, council)
      else
        (true,
          { council with
            actions := council.actions.insert actionId
              { action with signers := action.signers.insert guardian } })

def hasSufficientSignatures (council : EmergencyCouncil) (actionId : UInt64) : Bool :=
  match council.actions[actionId]? with
  | none => false
  | some action => UInt32.ofNat action.signers.size ≥ council.requiredSigs

def executeAction (council : EmergencyCouncil) (actionId blockHeight : UInt64) :
    Bool × EmergencyCouncil :=
  match council.actions[actionId]? with
  | none => (false, council)
  | some action =>
      if action.executed then (false, council)
      else if council.isExpired actionId blockHeight then (false, council)
      else if !council.hasSufficientSignatures actionId then (false, council)
      else
        (true,
          { council with
            actions := council.actions.insert actionId
              { action with executed := true, executedAtBlock := blockHeight }
            governancePaused := council.governancePaused || action.type == .pauseGovernance })

end EmergencyCouncil

/-- A call of an emergency council. -/
inductive CouncilCall
  | addGuardian (address : Bytes) (role : String) (blockHeight : UInt64)
  | removeGuardian (address : Bytes)
  | proposeAction (type : ActionType) (description : String) (initiator : Bytes)
      (targetProposalId blockHeight : UInt64)
  | signAction (actionId : UInt64) (guardian : Bytes) (blockHeight : UInt64)
  | executeAction (actionId blockHeight : UInt64)
  | setRequiredSigs (count : UInt32)
  | setActionTtl (blocks : UInt64)

namespace EmergencyCouncil

def apply (council : EmergencyCouncil) : CouncilCall → EmergencyCouncil
  | .addGuardian address role blockHeight => (council.addGuardian address role blockHeight).2
  | .removeGuardian address => (council.removeGuardian address).2
  | .proposeAction type description initiator targetProposalId blockHeight =>
      (council.proposeAction type description initiator targetProposalId blockHeight).2
  | .signAction actionId guardian blockHeight => (council.signAction actionId guardian blockHeight).2
  | .executeAction actionId blockHeight => (council.executeAction actionId blockHeight).2
  | .setRequiredSigs count => { council with requiredSigs := count }
  | .setActionTtl blocks => { council with actionTtl := blocks }

/-! ## What each call does -/

variable (council : EmergencyCouncil)

theorem proposeAction_cases (type : ActionType) (description : String) (initiator : Bytes)
    (targetProposalId blockHeight : UInt64) :
    council.proposeAction type description initiator targetProposalId blockHeight = (0, council) ∨
    council.isGuardian initiator = true ∧
      council.proposeAction type description initiator targetProposalId blockHeight =
        (council.nextActionId,
          { council with
            actions := council.actions.insert council.nextActionId
              (council.newAction type description initiator targetProposalId blockHeight)
            nextActionId := council.nextActionId + 1 }) := by
  unfold proposeAction
  cases council.isGuardian initiator with
  | false => exact .inl rfl
  | true => exact .inr ⟨rfl, rfl⟩

theorem signAction_cases (actionId : UInt64) (guardian : Bytes) (blockHeight : UInt64) :
    council.signAction actionId guardian blockHeight = (false, council) ∨
    ∃ action, council.isGuardian guardian = true ∧ council.actions[actionId]? = some action ∧
      action.executed = false ∧
      council.signAction actionId guardian blockHeight =
        (true,
          { council with
            actions := council.actions.insert actionId
              { action with signers := action.signers.insert guardian } }) := by
  unfold signAction
  cases council.isGuardian guardian with
  | false => exact .inl rfl
  | true =>
      cases found : council.actions[actionId]? with
      | none => exact .inl rfl
      | some action =>
          cases pending : action.executed with
          | true => exact .inl (by simp [pending])
          | false =>
              cases live : council.isExpired actionId blockHeight with
              | true => exact .inl (by simp [pending])
              | false => exact .inr ⟨action, rfl, rfl, pending, by simp [pending]⟩

theorem executeAction_cases (actionId blockHeight : UInt64) :
    council.executeAction actionId blockHeight = (false, council) ∨
    ∃ action, council.actions[actionId]? = some action ∧ action.executed = false ∧
      council.isExpired actionId blockHeight = false ∧
      council.hasSufficientSignatures actionId = true ∧
      council.executeAction actionId blockHeight =
        (true,
          { council with
            actions := council.actions.insert actionId
              { action with executed := true, executedAtBlock := blockHeight }
            governancePaused := council.governancePaused || action.type == .pauseGovernance }) := by
  unfold executeAction
  cases found : council.actions[actionId]? with
  | none => exact .inl rfl
  | some action =>
      cases pending : action.executed with
      | true => exact .inl (by simp [pending])
      | false =>
          cases live : council.isExpired actionId blockHeight with
          | true => exact .inl (by simp [pending])
          | false =>
              cases signed : council.hasSufficientSignatures actionId with
              | false => exact .inl (by simp [pending])
              | true => exact .inr ⟨action, rfl, pending, rfl, rfl, by simp [pending]⟩

end EmergencyCouncil

end Parthenon.Governance
