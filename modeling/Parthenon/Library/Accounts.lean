import Mathlib.Algebra.BigOperators.Group.Finset.Piecewise
import Mathlib.Algebra.Order.BigOperators.Group.Finset
import Mathlib.Algebra.Order.Ring.Nat
import Mathlib.Logic.Function.Basic

namespace Parthenon.Library

/-! # Accounts

Balances of 64 bits.  Deposits add to them without a check, and withdrawals take what they
cover.  A balance is what was deposited and not withdrawn, as far as 64 bits can tell.
-/

inductive Posting (κ : Type u)
  | deposit (account : κ) (amount : Nat)
  | withdraw (account : κ) (amount : Nat)

namespace Posting

variable {κ : Type u}

def account : Posting κ → κ
  | deposit account _ | withdraw account _ => account

def deposited : Posting κ → Nat
  | deposit _ amount => amount
  | withdraw _ _ => 0

def withdrawn : Posting κ → Nat
  | deposit _ _ => 0
  | withdraw _ amount => amount

end Posting

variable {κ : Type u} [DecidableEq κ]

/-- A part of the postings to one account, added up. -/
def postedTo (part : Posting κ → Nat) (account : κ) (postings : List (Posting κ)) : Nat :=
  (postings.map fun posting => if posting.account = account then part posting else 0).sum

def depositedTo (account : κ) (postings : List (Posting κ)) : Nat :=
  postedTo Posting.deposited account postings

def withdrawnFrom (account : κ) (postings : List (Posting κ)) : Nat :=
  postedTo Posting.withdrawn account postings

/-- What an account has a claim to. -/
def owed (account : κ) (postings : List (Posting κ)) : Nat :=
  depositedTo account postings - withdrawnFrom account postings

theorem postedTo_concat (part : Posting κ → Nat) (account : κ) (postings : List (Posting κ))
    (posting : Posting κ) :
    postedTo part account (postings ++ [posting]) =
      postedTo part account postings + if posting.account = account then part posting else 0 := by
  rw [postedTo, List.map_append, List.sum_append, List.map_singleton, List.sum_singleton]
  rfl

section Concat

variable (account other : κ) (amount : Nat) (postings : List (Posting κ))

theorem depositedTo_deposit : depositedTo account (postings ++ [.deposit other amount]) =
    depositedTo account postings + if other = account then amount else 0 :=
  postedTo_concat _ _ _ _

theorem depositedTo_withdraw : depositedTo account (postings ++ [.withdraw other amount]) =
    depositedTo account postings :=
  (postedTo_concat _ _ _ _).trans (by rw [Posting.deposited, ite_self]; rfl)

theorem withdrawnFrom_deposit : withdrawnFrom account (postings ++ [.deposit other amount]) =
    withdrawnFrom account postings :=
  (postedTo_concat _ _ _ _).trans (by rw [Posting.withdrawn, ite_self]; rfl)

theorem withdrawnFrom_withdraw : withdrawnFrom account (postings ++ [.withdraw other amount]) =
    withdrawnFrom account postings + if other = account then amount else 0 :=
  postedTo_concat _ _ _ _

end Concat

theorem sum_postedTo (part : Posting κ → Nat) (accounts : Finset κ) (postings : List (Posting κ)) :
    ∑ account ∈ accounts, postedTo part account postings =
      ((postings.filter (·.account ∈ accounts)).map part).sum := by
  induction postings with
  | nil => exact Finset.sum_const_zero
  | cons posting rest ih =>
      have here : ∑ account ∈ accounts, (if posting.account = account then part posting else 0) =
          if posting.account ∈ accounts then part posting else 0 := Finset.sum_ite_eq _ _ _
      simp only [postedTo, List.map_cons, List.sum_cons] at ih ⊢
      rw [Finset.sum_add_distrib, here, ih]
      by_cases member : posting.account ∈ accounts
      · rw [if_pos member, List.filter_cons, if_pos (decide_eq_true member), List.map_cons,
          List.sum_cons]
      · rw [if_neg member, List.filter_cons, if_neg (by simpa using member), Nat.zero_add]

/-- Balances that the postings lead to from none. -/
inductive Booked : List (Posting κ) → (κ → UInt64) → Prop
  | opening : Booked [] fun _ => 0
  | deposit {postings : List (Posting κ)} {balance : κ → UInt64} (booked : Booked postings balance)
      (account : κ) (amount : UInt64) :
      Booked (postings ++ [.deposit account amount.toNat])
        (Function.update balance account (balance account + amount))
  | withdraw {postings : List (Posting κ)} {balance : κ → UInt64} (booked : Booked postings balance)
      (account : κ) (amount : UInt64) (covered : amount ≤ balance account) :
      Booked (postings ++ [.withdraw account amount.toNat])
        (Function.update balance account (balance account - amount))

namespace Booked

variable {postings : List (Posting κ)} {balance : κ → UInt64}

/-- Nothing is withdrawn that was not deposited, and a balance is the rest, counted on 64 bits. -/
theorem balance_eq (booked : Booked postings balance) (account : κ) :
    withdrawnFrom account postings ≤ depositedTo account postings ∧
      (balance account).toNat = owed account postings % 2 ^ 64 := by
  induction booked with
  | opening => exact ⟨Nat.le_refl 0, rfl⟩
  | @deposit postings balance booked payee amount ih =>
      obtain ⟨covered, isBalance⟩ := ih
      unfold owed at *
      rw [withdrawnFrom_deposit, depositedTo_deposit, Function.update_apply]
      by_cases same : account = payee
      · subst same
        rw [if_pos rfl, if_pos rfl, UInt64.toNat_add, isBalance]
        omega
      · rw [if_neg same, if_neg (Ne.symm same)]
        exact ⟨covered, isBalance⟩
  | @withdraw postings balance booked payer amount enough ih =>
      obtain ⟨covered, isBalance⟩ := ih
      unfold owed at *
      rw [withdrawnFrom_withdraw, depositedTo_withdraw, Function.update_apply]
      by_cases same : account = payer
      · subst same
        have le := UInt64.le_iff_toNat_le.mp enough
        rw [if_pos rfl, if_pos rfl, UInt64.toNat_sub_of_le _ _ enough]
        omega
      · rw [if_neg same, if_neg (Ne.symm same)]
        exact ⟨covered, isBalance⟩

/-- What a set of accounts has a claim to was deposited in them and not withdrawn. -/
theorem sum_owed (booked : Booked postings balance) (accounts : Finset κ) :
    ∑ account ∈ accounts, owed account postings +
        ((postings.filter (·.account ∈ accounts)).map Posting.withdrawn).sum =
      ((postings.filter (·.account ∈ accounts)).map Posting.deposited).sum := by
  rw [← sum_postedTo, ← sum_postedTo, ← Finset.sum_add_distrib]
  exact Finset.sum_congr rfl fun account _ => Nat.sub_add_cancel (booked.balance_eq account).1

end Booked

end Parthenon.Library
