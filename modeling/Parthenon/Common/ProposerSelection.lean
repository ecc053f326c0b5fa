import Parthenon.Library.Shuffle
import Parthenon.Library.Sums

namespace Parthenon.Common

open Library

/-! # Proposer selection

The proposer of a slot is the validator in whose range of the total stake the slot
falls.  Both layers select it in the same way.
-/

structure Validator where
  id : String
  stake : UInt64
deriving DecidableEq, Repr

def totalActiveStake (validators : List Validator) : UInt64 :=
  validators.foldl (fun total validator => total + validator.stake) 0

/-- The first position whose stake the cursor, less the stakes before it, is below. -/
def positionAt : UInt64 → List Validator → Option Nat
  | _, [] => none
  | cursor, validator :: rest =>
      if cursor < validator.stake then some 0
      else (positionAt (cursor - validator.stake) rest).map (· + 1)

def slotOf (epoch height : UInt64) : UInt64 := epoch <<< 32 ^^^ height

/-- The position of the proposer; the last one where the scan finds none. -/
def selectDeterministicProposer (validators : List Validator) (epoch height : UInt64) :
    Except String Nat :=
  if validators.isEmpty then .error "validators cannot be empty"
  else if totalActiveStake validators = 0 then .error "total active stake cannot be zero"
  else
    .ok ((positionAt (slotOf epoch height % totalActiveStake validators) validators).getD
      (validators.length - 1))

namespace Drachma

def totalActiveStake : List Validator → UInt64 := Common.totalActiveStake

def selectDeterministicProposer : List Validator → UInt64 → UInt64 → Except String Nat :=
  Common.selectDeterministicProposer

end Drachma

namespace Obolos

def totalActiveStake : List Validator → UInt64 := Common.totalActiveStake

def selectDeterministicProposer : List Validator → UInt64 → UInt64 → Except String Nat :=
  Common.selectDeterministicProposer

end Obolos

/-! ## Exact stakes -/

def stakes (validators : List Validator) : List Nat :=
  validators.map fun validator => validator.stake.toNat

variable {validators : List Validator}

theorem totalActiveStake_toNat (fits : (stakes validators).sum < 2 ^ 64) :
    (totalActiveStake validators).toNat = (stakes validators).sum := by
  have summed := toNat_foldl_wrapping
    (fun total (validator : Validator) => total + validator.stake)
    (fun validator => validator.stake.toNat) (fun _ _ => UInt64.toNat_add _ _) validators 0
  rw [UInt64.toNat_zero, Nat.zero_add] at summed
  exact summed.trans (Nat.mod_eq_of_lt fits)

theorem positionAt_eq_choose (cursor : UInt64) (validators : List Validator) :
    positionAt cursor validators = choose cursor.toNat (stakes validators) := by
  induction validators generalizing cursor with
  | nil => rfl
  | cons validator rest ih =>
      rw [positionAt, stakes, List.map_cons, choose]
      by_cases covers : cursor < validator.stake
      · rw [if_pos covers, if_pos (UInt64.lt_iff_toNat_lt.mp covers)]
      · have le := UInt64.not_lt.mp covers
        rw [if_neg covers, if_neg (mt UInt64.lt_iff_toNat_lt.mpr covers), ih,
          toNat_sub_of_le le]
        rfl

theorem getElem?_stakes {position : Nat} {validator : Validator}
    (there : validators[position]? = some validator) :
    (stakes validators)[position]? = some validator.stake.toNat := by
  rw [stakes, List.getElem?_map, there]
  rfl

/-! ## Shares of the slots -/

/-- Every slot has a proposer that the scan finds, with a stake, and each position is found for
as many remainders of a slot as it has stake. -/
structure SelectsByStake (select : List Validator → UInt64 → UInt64 → Except String Nat)
    (validators : List Validator) : Prop where
  found : ∀ epoch height, ∃ remainder position validator,
    remainder.toNat = (slotOf epoch height).toNat % (stakes validators).sum ∧
    positionAt remainder validators = some position ∧
    select validators epoch height = .ok position ∧
    validators[position]? = some validator ∧ 0 < validator.stake
  share : ∀ position validator, validators[position]? = some validator →
    ((Finset.range (stakes validators).sum).filter fun remainder =>
      positionAt (UInt64.ofNat remainder) validators = some position).card = validator.stake.toNat

theorem selectsByStake (positive : 0 < (stakes validators).sum)
    (fits : (stakes validators).sum < 2 ^ 64) :
    SelectsByStake selectDeterministicProposer validators := by
  have total := totalActiveStake_toNat fits
  constructor
  · intro epoch height
    have remainder : (slotOf epoch height % totalActiveStake validators).toNat =
        (slotOf epoch height).toNat % (stakes validators).sum := by
      rw [UInt64.toNat_mod, total]
    have below := Nat.mod_lt (slotOf epoch height).toNat positive
    rw [← remainder] at below
    obtain ⟨position, weight, chosen, there, isPositive⟩ := choose_of_lt_sum below
    rw [← positionAt_eq_choose] at chosen
    obtain ⟨validator, isValidator, rfl⟩ := Option.map_eq_some_iff.mp (List.getElem?_map ▸ there)
    refine ⟨_, position, validator, remainder, chosen, ?_, isValidator,
      UInt64.lt_iff_toNat_lt.mpr isPositive⟩
    have some_ : ¬ validators.isEmpty = true := by
      cases validators with
      | nil => cases isValidator
      | cons first rest => simp
    have nonzero : ¬ totalActiveStake validators = 0 := by
      intro zero
      rw [zero, UInt64.toNat_zero] at total
      omega
    rw [selectDeterministicProposer, if_neg some_, if_neg nonzero, chosen]
    rfl
  · intro position validator there
    have tickets := card_choose (getElem?_stakes there)
    rw [← tickets]
    congr 1
    apply Finset.filter_congr
    intro remainder member
    have small : remainder < 2 ^ 64 := Nat.lt_trans (Finset.mem_range.mp member) fits
    rw [positionAt_eq_choose, UInt64.toNat_ofNat_of_lt' small]

/-- On either layer a validator proposes in its share of the slots. -/
theorem proposers_selected_by_stake (positive : 0 < (stakes validators).sum)
    (fits : (stakes validators).sum < 2 ^ 64) :
    SelectsByStake Drachma.selectDeterministicProposer validators ∧
      SelectsByStake Obolos.selectDeterministicProposer validators :=
  ⟨selectsByStake positive fits, selectsByStake positive fits⟩

/-- Three validators, the middle one without a stake. -/
theorem proposers_selected_by_stake_three :
    SelectsByStake Drachma.selectDeterministicProposer [⟨"a", 2⟩, ⟨"b", 0⟩, ⟨"a", 3⟩] ∧
      SelectsByStake Obolos.selectDeterministicProposer [⟨"a", 2⟩, ⟨"b", 0⟩, ⟨"a", 3⟩] :=
  proposers_selected_by_stake (by decide) (by decide)

end Parthenon.Common
