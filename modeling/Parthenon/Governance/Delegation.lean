import Parthenon.Library.Accounts
import Parthenon.Library.ByteCodec
import Parthenon.Library.OrderedMap
import Parthenon.Library.Sums

namespace Parthenon.Governance

open Library Std

/-! # Delegation

Votes that addresses lend to others.  Nothing says how many an address has to lend, and
the power of an address is added up on 64 bits.
-/

abbrev Delegations := ExtTreeMap Bytes UInt64 compare

structure DelegationSystem where
  delegations : ExtTreeMap Bytes Delegations compare

inductive DelegationCall
  | delegate (delegator delegatee : Bytes) (amount : UInt64)
  | undelegate (delegator delegatee : Bytes) (amount : UInt64)
deriving DecidableEq, Repr

namespace DelegationSystem

def empty : DelegationSystem := ⟨∅⟩

def getDelegationsFrom (system : DelegationSystem) (delegator : Bytes) : Delegations :=
  system.delegations.getD delegator ∅

def getDelegationsTo (system : DelegationSystem) (delegatee : Bytes) : Delegations :=
  system.delegations.toList.foldl (insertKept fun _ lent => lent[delegatee]?) ∅

def getVotingPower (system : DelegationSystem) (address : Bytes) : UInt64 :=
  system.delegations.toList.foldl (fun power entry =>
    match entry.2[address]? with
    | none => power
    | some amount => power + amount) 0

/-- What a delegator has lent is written in its place. -/
def setLent (system : DelegationSystem) (delegator : Bytes) (lent : Delegations) : DelegationSystem :=
  ⟨system.delegations.insert delegator lent⟩

def delegate (system : DelegationSystem) (delegator delegatee : Bytes) (amount : UInt64) :
    Bool × DelegationSystem :=
  if amount = 0 ∨ delegator = delegatee then (false, system)
  else
    let lent := system.getDelegationsFrom delegator
    (true, system.setLent delegator (lent.insert delegatee (lent.getD delegatee 0 + amount)))

def undelegate (system : DelegationSystem) (delegator delegatee : Bytes) (amount : UInt64) :
    Bool × DelegationSystem :=
  match system.delegations[delegator]? with
  | none => (false, system)
  | some lent =>
      match lent[delegatee]? with
      | none => (false, system)
      | some held =>
          if held < amount then (false, system)
          else if held - amount = 0 then (true, system.setLent delegator (lent.erase delegatee))
          else (true, system.setLent delegator (lent.insert delegatee (held - amount)))

/-- What one address has lent to another. -/
def lentTo (system : DelegationSystem) (pair : Bytes × Bytes) : UInt64 :=
  (system.getDelegationsFrom pair.1).getD pair.2 0

theorem getDelegationsFrom_setLent (system : DelegationSystem) (delegator other : Bytes)
    (lent : Delegations) : (system.setLent delegator lent).getDelegationsFrom other =
      if delegator = other then lent else system.getDelegationsFrom other :=
  getD_insert_eq _ _ _ _ _

/-- Both tables tell the same amounts. -/
theorem getD_getDelegationsTo (system : DelegationSystem) (delegator delegatee : Bytes) :
    (system.getDelegationsTo delegatee).getD delegator 0 = system.lentTo (delegator, delegatee) := by
  rw [lentTo, getDelegationsFrom, ExtTreeMap.getD_eq_getD_getElem?, getDelegationsTo, getElem?_keep,
    ExtTreeMap.getD_eq_getD_getElem?, ExtTreeMap.getD_eq_getD_getElem?]
  cases system.delegations[delegator]? with
  | none => simp
  | some lent => rfl

theorem lentTo_setLent (system : DelegationSystem) (delegator delegatee : Bytes)
    {lent : Delegations} {amount : UInt64}
    (here : lent.getD delegatee 0 = amount)
    (others : ∀ other, other ≠ delegatee →
      lent.getD other 0 = (system.getDelegationsFrom delegator).getD other 0) :
    (system.setLent delegator lent).lentTo =
      Function.update system.lentTo (delegator, delegatee) amount := by
  funext pair
  obtain ⟨first, second⟩ := pair
  rw [lentTo, getDelegationsFrom_setLent, Function.update_apply]
  by_cases isFirst : delegator = first
  · subst isFirst
    rw [if_pos rfl]
    by_cases isSecond : second = delegatee
    · subst isSecond
      rw [if_pos rfl]
      exact here
    · rw [if_neg fun same => isSecond (congrArg Prod.snd same)]
      exact others second isSecond
  · rw [if_neg isFirst, if_neg fun same => isFirst (congrArg Prod.fst same).symm]
    rfl

/-- The power of an address, exactly. -/
def exactPower (address : Bytes) (system : DelegationSystem) : Nat :=
  total (fun _ lent => (lent.getD address 0).toNat) system.delegations

theorem getVotingPower_toNat (system : DelegationSystem) (address : Bytes) :
    (system.getVotingPower address).toNat = system.exactPower address % 2 ^ 64 := by
  have summed := toNat_foldl_wrapping (fun (power : UInt64) (entry : Bytes × Delegations) =>
      match entry.2[address]? with
      | none => power
      | some amount => power + amount)
    (fun entry => (entry.2.getD address 0).toNat) (fun power entry => by
      rw [ExtTreeMap.getD_eq_getD_getElem?]
      cases entry.2[address]? with
      | none => exact (Nat.mod_eq_of_lt power.toNat_lt).symm
      | some amount => exact UInt64.toNat_add power amount) system.delegations.toList 0
  rw [UInt64.toNat_zero, Nat.zero_add] at summed
  exact summed

theorem exactPower_setLent (system : DelegationSystem) (delegator address : Bytes)
    (lent : Delegations) :
    (system.setLent delegator lent).exactPower address + (system.lentTo (delegator, address)).toNat =
      system.exactPower address + (lent.getD address 0).toNat := by
  have exchanged := total_insert_exchange (fun _ (lent : Delegations) => (lent.getD address 0).toNat)
    system.delegations delegator lent
  have before : (system.delegations[delegator]?.map fun lent =>
      (lent.getD address 0).toNat).getD 0 = (system.lentTo (delegator, address)).toNat := by
    rw [lentTo, getDelegationsFrom, ExtTreeMap.getD_eq_getD_getElem? (t := system.delegations)]
    cases system.delegations[delegator]? with
    | none => rfl
    | some lent => rfl
  rw [before] at exchanged
  exact exchanged

/-- What is written in the place of a delegator differs in one entry. -/
structure Sets (system after : DelegationSystem) (delegator delegatee : Bytes)
    (amount : UInt64) : Prop where
  lentTo : after.lentTo = Function.update system.lentTo (delegator, delegatee) amount
  exactPower : ∀ address, after.exactPower address +
      (if delegatee = address then (system.lentTo (delegator, delegatee)).toNat else 0) =
    system.exactPower address + if delegatee = address then amount.toNat else 0

theorem sets_setLent {system : DelegationSystem} {delegator delegatee : Bytes} {lent : Delegations}
    {amount : UInt64} (here : lent.getD delegatee 0 = amount)
    (others : ∀ other, other ≠ delegatee →
      lent.getD other 0 = (system.getDelegationsFrom delegator).getD other 0) :
    system.Sets (system.setLent delegator lent) delegator delegatee amount where
  lentTo := system.lentTo_setLent delegator delegatee here others
  exactPower address := by
    have exchanged := system.exactPower_setLent delegator address lent
    by_cases same : delegatee = address
    · subst same
      rw [if_pos rfl, if_pos rfl, exchanged, here]
    · rw [if_neg same, if_neg same, Nat.add_zero, Nat.add_zero]
      rw [others address (Ne.symm same), lentTo] at exchanged
      exact Nat.add_right_cancel exchanged

theorem delegate_cases (system : DelegationSystem) (delegator delegatee : Bytes) (amount : UInt64) :
    system.delegate delegator delegatee amount = (false, system) ∨
    ∃ after, system.delegate delegator delegatee amount = (true, after) ∧
      system.Sets after delegator delegatee (system.lentTo (delegator, delegatee) + amount) := by
  unfold delegate
  by_cases refused : amount = 0 ∨ delegator = delegatee
  · rw [if_pos refused]
    exact .inl rfl
  · rw [if_neg refused]
    refine .inr ⟨_, rfl, sets_setLent ?_ fun other differs => ?_⟩
    · rw [getD_insert_eq, if_pos rfl, lentTo]
    · rw [getD_insert_eq, if_neg (Ne.symm differs)]

theorem undelegate_cases (system : DelegationSystem) (delegator delegatee : Bytes)
    (amount : UInt64) :
    system.undelegate delegator delegatee amount = (false, system) ∨
    ∃ after, system.undelegate delegator delegatee amount = (true, after) ∧
      amount ≤ system.lentTo (delegator, delegatee) ∧
      system.Sets after delegator delegatee (system.lentTo (delegator, delegatee) - amount) := by
  unfold undelegate
  cases found : system.delegations[delegator]? with
  | none => exact .inl rfl
  | some lent =>
      have isLent : system.getDelegationsFrom delegator = lent := by
        rw [getDelegationsFrom, ExtTreeMap.getD_eq_getD_getElem?, found]
        rfl
      dsimp only
      cases entry : lent[delegatee]? with
      | none => exact .inl rfl
      | some held =>
          have isHeld : system.lentTo (delegator, delegatee) = held := by
            rw [lentTo, isLent, ExtTreeMap.getD_eq_getD_getElem?, entry]
            rfl
          dsimp only
          by_cases short : held < amount
          · rw [if_pos short]
            exact .inl rfl
          · rw [if_neg short, isHeld]
            by_cases none : held - amount = 0
            · rw [if_pos none]
              refine .inr ⟨_, rfl, UInt64.not_lt.mp short, sets_setLent ?_ fun other differs => ?_⟩
              · rw [ExtTreeMap.getD_eq_getD_getElem?, getElem?_erase_eq, if_pos rfl, none]
                rfl
              · rw [ExtTreeMap.getD_eq_getD_getElem?, getElem?_erase_eq, if_neg (Ne.symm differs),
                  isLent, ExtTreeMap.getD_eq_getD_getElem?]
            · rw [if_neg none]
              refine .inr ⟨_, rfl, UInt64.not_lt.mp short, sets_setLent ?_ fun other differs => ?_⟩
              · rw [getD_insert_eq, if_pos rfl]
              · rw [getD_insert_eq, if_neg (Ne.symm differs), isLent]

end DelegationSystem

namespace DelegationCall

def posting : DelegationCall → Posting (Bytes × Bytes)
  | delegate delegator delegatee amount => .deposit (delegator, delegatee) amount.toNat
  | undelegate delegator delegatee amount => .withdraw (delegator, delegatee) amount.toNat

end DelegationCall

/-- A system with the calls that it has accepted. -/
structure DelegationHistory where
  system : DelegationSystem
  accepted : List DelegationCall

namespace DelegationHistory

def start : DelegationHistory := { system := .empty, accepted := [] }

def after (history : DelegationHistory) (call : DelegationCall) : DelegationHistory :=
  let (done, system) :=
    match call with
    | .delegate delegator delegatee amount => history.system.delegate delegator delegatee amount
    | .undelegate delegator delegatee amount => history.system.undelegate delegator delegatee amount
  { system, accepted := history.accepted ++ if done then [call] else [] }

/-- The postings of the accepted calls. -/
def postings (history : DelegationHistory) : List (Posting (Bytes × Bytes)) :=
  history.accepted.map DelegationCall.posting

/-- What was lent to an address, and what of it was taken back. -/
def lent (history : DelegationHistory) (part : Posting (Bytes × Bytes) → Nat) (address : Bytes) :
    Nat :=
  ((history.postings.filter (·.account.2 = address)).map part).sum

structure Kept (history : DelegationHistory) : Prop where
  booked : Booked history.postings history.system.lentTo
  powers : ∀ address,
    (history.system.exactPower address + history.lent Posting.withdrawn address) % 2 ^ 64 =
      history.lent Posting.deposited address % 2 ^ 64

theorem lent_concat (history : DelegationHistory) {part : Posting (Bytes × Bytes) → Nat}
    (address : Bytes) (system : DelegationSystem) (call : DelegationCall) (delegatee : Bytes)
    (amount : Nat) (isDelegatee : call.posting.account.2 = delegatee)
    (isAmount : part call.posting = amount) :
    ({ system, accepted := history.accepted ++ [call] } : DelegationHistory).lent part address =
      history.lent part address + if delegatee = address then amount else 0 := by
  subst isDelegatee isAmount
  rw [lent, postings, List.map_append, List.filter_append, List.map_append, List.sum_append,
    List.map_singleton, List.filter_singleton]
  by_cases same : call.posting.account.2 = address
  · rw [if_pos same, decide_eq_true same]
    rfl
  · rw [if_neg same, decide_eq_false same]
    rfl

theorem Kept.after {history : DelegationHistory} (kept : history.Kept) (call : DelegationCall) :
    (history.after call).Kept := by
  cases call with
  | delegate delegator delegatee amount =>
      rcases history.system.delegate_cases delegator delegatee amount with
        refused | ⟨system, done, lentTo, powers⟩
      · simp only [DelegationHistory.after, refused, Bool.false_eq_true, if_false, List.append_nil]
        exact kept
      · simp only [DelegationHistory.after, done, if_true]
        refine ⟨?_, fun address => ?_⟩
        · rw [postings, List.map_append, lentTo]
          exact kept.booked.deposit (delegator, delegatee) amount
        · have power := powers address
          have before := kept.powers address
          rw [UInt64.toNat_add] at power
          rw [lent_concat history address system _ delegatee 0 rfl rfl,
            lent_concat history address system _ delegatee amount.toNat rfl rfl,
            ite_self]
          change (system.exactPower address + _) % _ = _
          split at power <;> rename_i same
          · rw [if_pos same]
            omega
          · rw [if_neg same]
            omega
  | undelegate delegator delegatee amount =>
      rcases history.system.undelegate_cases delegator delegatee amount with
        refused | ⟨system, done, covered, lentTo, powers⟩
      · simp only [DelegationHistory.after, refused, Bool.false_eq_true, if_false, List.append_nil]
        exact kept
      · simp only [DelegationHistory.after, done, if_true]
        refine ⟨?_, fun address => ?_⟩
        · rw [postings, List.map_append, lentTo]
          exact kept.booked.withdraw (delegator, delegatee) amount covered
        · have power := powers address
          have before := kept.powers address
          have le := UInt64.le_iff_toNat_le.mp covered
          rw [UInt64.toNat_sub_of_le _ _ covered] at power
          rw [lent_concat history address system _ delegatee amount.toNat rfl rfl,
            lent_concat history address system _ delegatee 0 rfl rfl, ite_self]
          change (system.exactPower address + _) % _ = _
          split at power <;> rename_i same
          · rw [if_pos same]
            omega
          · rw [if_neg same]
            omega

theorem run_kept (calls : List DelegationCall) : (calls.foldl after start).Kept := by
  induction calls using List.reverseRecOn with
  | nil =>
      refine ⟨.opening, fun address => ?_⟩
      change (total _ (∅ : ExtTreeMap Bytes Delegations compare) + 0) % 2 ^ 64 = 0 % 2 ^ 64
      rw [total_empty]
  | append_singleton calls call ih =>
      rw [List.foldl_append]
      exact ih.after call

/-- Nothing is taken back that was not lent. -/
theorem Kept.taken_le {history : DelegationHistory} (kept : history.Kept) (address : Bytes) :
    history.lent Posting.withdrawn address ≤ history.lent Posting.deposited address := by
  have claims := kept.booked.sum_owed
    ((history.postings.map Posting.account).toFinset.filter (·.2 = address))
  have same : history.postings.filter (fun posting =>
      posting.account ∈ (history.postings.map Posting.account).toFinset.filter (·.2 = address)) =
        history.postings.filter (·.account.2 = address) := by
    apply List.filter_congr
    intro posting member
    rw [decide_eq_decide, Finset.mem_filter, List.mem_toFinset]
    exact and_iff_right (List.mem_map.mpr ⟨posting, member, rfl⟩)
  rw [same] at claims
  exact Nat.le.intro ((Nat.add_comm _ _).trans claims)

/-- Over any calls, both tables of the delegations tell what was lent and not taken back, and the
power of an address is what all have lent to it, all counted on 64 bits. -/
theorem run_power (calls : List DelegationCall) :
    let history := calls.foldl after start
    (∀ delegator delegatee,
      (history.system.getDelegationsTo delegatee).getD delegator 0 =
        (history.system.getDelegationsFrom delegator).getD delegatee 0 ∧
      withdrawnFrom (delegator, delegatee) history.postings ≤
        depositedTo (delegator, delegatee) history.postings ∧
      ((history.system.getDelegationsFrom delegator).getD delegatee 0).toNat =
        owed (delegator, delegatee) history.postings % 2 ^ 64) ∧
    ∀ address, history.lent Posting.withdrawn address ≤ history.lent Posting.deposited address ∧
      (history.system.getVotingPower address).toNat =
        (history.lent Posting.deposited address - history.lent Posting.withdrawn address) % 2 ^ 64 := by
  intro history
  have kept : history.Kept := run_kept calls
  refine ⟨fun delegator delegatee => ?_, fun address => ⟨kept.taken_le address, ?_⟩⟩
  · exact ⟨history.system.getD_getDelegationsTo delegator delegatee,
      kept.booked.balance_eq (delegator, delegatee)⟩
  · have taken := kept.taken_le address
    have power := kept.powers address
    rw [history.system.getVotingPower_toNat]
    omega

end DelegationHistory

end Parthenon.Governance
