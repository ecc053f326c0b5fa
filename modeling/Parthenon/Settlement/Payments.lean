import Parthenon.Library.Accounts
import Parthenon.Library.ByteCodec
import Parthenon.Library.OrderedMap

namespace Parthenon.Settlement

open Library Std

/-! # Payments

What is added to a balance is not checked, what is taken from it is.
-/

structure PaymentResult where
  ok : Bool
  reason : String
deriving DecidableEq, Repr

structure PaymentsStateMachine where
  balances : ExtTreeMap String UInt64 compare
  collectedFees : UInt64

inductive PaymentCall
  | credit (account : String) (amount : UInt64)
  | transfer (sender receiver : String) (amount fee : UInt64)
deriving DecidableEq, Repr

namespace PaymentsStateMachine

def new : PaymentsStateMachine := { balances := ∅, collectedFees := 0 }

def balance (machine : PaymentsStateMachine) (account : String) : UInt64 :=
  match machine.balances[account]? with
  | none => 0
  | some amount => amount

def setBalance (machine : PaymentsStateMachine) (account : String) (amount : UInt64) :
    PaymentsStateMachine :=
  { machine with balances := machine.balances.insert account amount }

/-- Reading a balance with `operator[]` makes one that is missing zero. -/
def credit (machine : PaymentsStateMachine) (account : String) (amount : UInt64) :
    PaymentsStateMachine :=
  machine.setBalance account (machine.balances.getD account 0 + amount)

def transfer (machine : PaymentsStateMachine) (sender receiver : String) (amount fee : UInt64) :
    PaymentResult × PaymentsStateMachine :=
  if sender.isEmpty ∨ receiver.isEmpty then
    (⟨false, "from/to account must be non-empty"⟩, machine)
  else if sender = receiver then (⟨false, "self transfer is not allowed"⟩, machine)
  else
    let debit := amount + fee
    if amount = 0 ∨ debit < amount then (⟨false, "invalid transfer amount"⟩, machine)
    else
      match machine.balances[sender]? with
      | none => (⟨false, "insufficient balance"⟩, machine)
      | some held =>
          if held < debit then (⟨false, "insufficient balance"⟩, machine)
          else
            let machine := (machine.setBalance sender (held - debit)).credit receiver amount
            (⟨true, ""⟩, { machine with collectedFees := machine.collectedFees + fee })

theorem balance_eq (machine : PaymentsStateMachine) (account : String) :
    machine.balance account = machine.balances.getD account 0 := by
  rw [balance, ExtTreeMap.getD_eq_getD_getElem?]
  cases machine.balances[account]? <;> rfl

theorem balance_setBalance (machine : PaymentsStateMachine) (account : String) (amount : UInt64) :
    (machine.setBalance account amount).balance = Function.update machine.balance account amount := by
  funext other
  rw [balance_eq, setBalance, getD_insert_eq, Function.update_apply, balance_eq]
  by_cases same : other = account
  · rw [if_pos same, if_pos same.symm]
  · rw [if_neg same, if_neg (Ne.symm same)]

theorem balance_credit (machine : PaymentsStateMachine) (account : String) (amount : UInt64) :
    (machine.credit account amount).balance =
      Function.update machine.balance account (machine.balance account + amount) := by
  rw [credit, balance_setBalance, balance_eq]

/-- What a transfer takes from its sender and gives to its receiver. -/
theorem transfer_cases (machine : PaymentsStateMachine) (sender receiver : String)
    (amount fee : UInt64) :
    ((machine.transfer sender receiver amount fee).1.ok = false ∧
      (machine.transfer sender receiver amount fee).2 = machine) ∨
    ((machine.transfer sender receiver amount fee).1.ok = true ∧ sender ≠ receiver ∧
      (amount + fee).toNat = amount.toNat + fee.toNat ∧ amount + fee ≤ machine.balance sender ∧
      (machine.transfer sender receiver amount fee).2.collectedFees = machine.collectedFees + fee ∧
      (machine.transfer sender receiver amount fee).2.balance =
        let taken := Function.update machine.balance sender (machine.balance sender - (amount + fee))
        Function.update taken receiver (taken receiver + amount)) := by
  unfold transfer
  by_cases nameless : sender.isEmpty ∨ receiver.isEmpty
  · rw [if_pos nameless]
    exact .inl ⟨rfl, rfl⟩
  · rw [if_neg nameless]
    by_cases same : sender = receiver
    · rw [if_pos same]
      exact .inl ⟨rfl, rfl⟩
    · rw [if_neg same]
      dsimp only
      by_cases invalid : amount = 0 ∨ amount + fee < amount
      · rw [if_pos invalid]
        exact .inl ⟨rfl, rfl⟩
      · rw [if_neg invalid]
        cases found : machine.balances[sender]? with
        | none => exact .inl ⟨rfl, rfl⟩
        | some held =>
            have isHeld : machine.balance sender = held := by rw [balance, found]
            dsimp only
            by_cases short : held < amount + fee
            · rw [if_pos short]
              exact .inl ⟨rfl, rfl⟩
            · rw [if_neg short, isHeld]
              refine .inr ⟨rfl, same, ?_, UInt64.not_lt.mp short, rfl, ?_⟩
              · have fits := mt Or.inr invalid
                rw [UInt64.lt_iff_toNat_lt, UInt64.toNat_add] at fits
                rw [UInt64.toNat_add]
                have small := amount.toNat_lt
                have smallFee := fee.toNat_lt
                omega
              · rw [← balance_setBalance]
                exact balance_credit _ receiver amount

end PaymentsStateMachine

namespace PaymentCall

/-- What an accepted call moves. -/
def postings : PaymentCall → List (Posting String)
  | credit account amount => [.deposit account amount.toNat]
  | transfer sender receiver amount fee =>
      [.withdraw sender (amount.toNat + fee.toNat), .deposit receiver amount.toNat]

def fee : PaymentCall → Nat
  | credit _ _ => 0
  | transfer _ _ _ fee => fee.toNat

def issued : PaymentCall → Nat
  | credit _ amount => amount.toNat
  | transfer _ _ _ _ => 0

/-- Every call adds up: what comes from outside is deposited, or paid as a fee. -/
theorem adds_up (calls : List PaymentCall) :
    ((calls.flatMap postings).map Posting.deposited).sum + (calls.map fee).sum =
      (calls.map issued).sum + ((calls.flatMap postings).map Posting.withdrawn).sum := by
  induction calls with
  | nil => rfl
  | cons call rest ih =>
      simp only [List.flatMap_cons, List.map_append, List.sum_append, List.map_cons, List.sum_cons]
      cases call with
      | credit account amount =>
          simp only [postings, fee, issued, List.map_cons, List.map_nil, List.sum_singleton,
            Posting.deposited, Posting.withdrawn]
          omega
      | transfer sender receiver amount paid =>
          simp only [postings, fee, issued, List.map_cons, List.map_nil, List.sum_cons, List.sum_nil,
            Posting.deposited, Posting.withdrawn]
          omega

end PaymentCall

/-- A machine with the calls that it has accepted. -/
structure PaymentHistory where
  machine : PaymentsStateMachine
  accepted : List PaymentCall

namespace PaymentHistory

def start : PaymentHistory := { machine := .new, accepted := [] }

def after (history : PaymentHistory) : PaymentCall → PaymentHistory
  | .credit account amount =>
      { machine := history.machine.credit account amount
        accepted := history.accepted ++ [.credit account amount] }
  | .transfer sender receiver amount fee =>
      let (result, machine) := history.machine.transfer sender receiver amount fee
      { machine
        accepted := history.accepted ++
          if result.ok then [.transfer sender receiver amount fee] else [] }

/-- The postings of the accepted calls. -/
def postings (history : PaymentHistory) : List (Posting String) :=
  history.accepted.flatMap PaymentCall.postings

def fees (history : PaymentHistory) : Nat := (history.accepted.map PaymentCall.fee).sum

def issued (history : PaymentHistory) : Nat := (history.accepted.map PaymentCall.issued).sum

structure Kept (history : PaymentHistory) : Prop where
  booked : Booked history.postings history.machine.balance
  fees : history.machine.collectedFees.toNat = history.fees % 2 ^ 64

theorem Kept.after {history : PaymentHistory} (kept : history.Kept) (call : PaymentCall) :
    (history.after call).Kept := by
  cases call with
  | credit account amount =>
      refine ⟨?_, ?_⟩
      · rw [postings, PaymentHistory.after, List.flatMap_append, PaymentsStateMachine.balance_credit]
        exact kept.booked.deposit account amount
      · rw [PaymentHistory.fees, PaymentHistory.after, List.map_append, List.sum_append]
        exact kept.fees
  | transfer sender receiver amount fee =>
      rcases history.machine.transfer_cases sender receiver amount fee with
        ⟨refused, same⟩ | ⟨accepted, _, exactly, covered, fees, balance⟩
      · have unchanged : history.after (.transfer sender receiver amount fee) = history := by
          rw [PaymentHistory.after]
          simp only [refused, same, Bool.false_eq_true, if_false, List.append_nil]
        rw [unchanged]
        exact kept
      · refine ⟨?_, ?_⟩
        · have taken := (kept.booked.withdraw sender (amount + fee) covered).deposit receiver amount
          rw [postings, PaymentHistory.after]
          simp only [accepted, if_true, List.flatMap_append, balance]
          rw [exactly, List.append_assoc] at taken
          exact taken
        · rw [PaymentHistory.fees, PaymentHistory.after]
          simp only [accepted, if_true, fees, List.map_append, List.sum_append]
          rw [UInt64.toNat_add, kept.fees, Nat.mod_add_mod]
          rfl

theorem run_kept (calls : List PaymentCall) : (calls.foldl after start).Kept := by
  induction calls using List.reverseRecOn with
  | nil => exact ⟨.opening, rfl⟩
  | append_singleton calls call ih =>
      rw [List.foldl_append]
      exact ih.after call

end PaymentHistory

/-- Over any calls nothing is lost and nothing is made: an account has what it was credited and
paid and did not pay, and the accounts with the fees have what was credited.  While what was
credited fits in 64 bits the machine has those numbers. -/
theorem PaymentHistory.run_conserves (calls : List PaymentCall) :
    let history := calls.foldl after start
    (∀ account, withdrawnFrom account history.postings ≤ depositedTo account history.postings ∧
      (history.machine.balance account).toNat = owed account history.postings % 2 ^ 64) ∧
    history.machine.collectedFees.toNat = history.fees % 2 ^ 64 ∧
    ∀ accounts : Finset String, (∀ posting ∈ history.postings, posting.account ∈ accounts) →
      ∑ account ∈ accounts, owed account history.postings + history.fees = history.issued ∧
      (history.issued < 2 ^ 64 →
        ∑ account ∈ accounts, (history.machine.balance account).toNat +
          history.machine.collectedFees.toNat = history.issued) := by
  intro history
  have kept : history.Kept := run_kept calls
  refine ⟨kept.booked.balance_eq, kept.fees, fun accounts all => ?_⟩
  have whole : history.postings.filter (·.account ∈ accounts) = history.postings :=
    List.filter_eq_self.mpr fun posting member => decide_eq_true (all posting member)
  have claims := kept.booked.sum_owed accounts
  rw [whole] at claims
  have added := PaymentCall.adds_up history.accepted
  have conserved : ∑ account ∈ accounts, owed account history.postings + history.fees =
      history.issued := by
    unfold PaymentHistory.fees issued
    unfold postings at claims ⊢
    omega
  refine ⟨conserved, fun fits => ?_⟩
  have each (account : String) (member : account ∈ accounts) :
      (history.machine.balance account).toNat = owed account history.postings := by
    have least := Finset.single_le_sum (f := fun account => owed account history.postings)
      (fun _ _ => Nat.zero_le _) member
    rw [(kept.booked.balance_eq account).2]
    exact Nat.mod_eq_of_lt (by omega)
  rw [Finset.sum_congr rfl each, kept.fees, Nat.mod_eq_of_lt (by omega)]
  exact conserved

end Parthenon.Settlement
