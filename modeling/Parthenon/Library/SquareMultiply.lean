import Mathlib.Algebra.Order.Ring.Nat
import Mathlib.Data.Nat.ModEq
import Mathlib.Logic.Function.Iterate
import Mathlib.Tactic.Ring

namespace Parthenon.Library

/-! # Square and multiply

Powers by repeated squaring, the lowest bit of the exponent first.  The variant with
exits stops at a square that is zero or one; over any multiplication that zero absorbs
and one leaves alone it loses a result only where zero is reached too late.
-/

variable {α : Type u} (times : α → α → α)

/-- A number of turns, each of which takes one bit of the exponent. -/
def squareMultiply : Nat → Nat → α → α → α
  | 0, _, result, _ => result
  | turns + 1, exponent, result, base =>
      squareMultiply turns (exponent / 2) (if exponent % 2 = 1 then times result base else result)
        (times base base)

/-- The base after a number of turns. -/
def squared (turns : Nat) (base : α) : α := (fun base => times base base)^[turns] base

theorem squared_succ (turns : Nat) (base : α) :
    squared times (turns + 1) base = squared times turns (times base base) :=
  Function.iterate_succ_apply _ turns base

theorem squareMultiply_zero (turns : Nat) (result base : α) :
    squareMultiply times turns 0 result base = result := by
  induction turns generalizing base with
  | zero => rfl
  | succ turns ih => exact ih (times base base)

section Value

variable {times} {value : α → Nat} {modulus : Nat} {small : α → Prop}

/-- Where every base that counts multiplies exactly, the result is the power. -/
theorem squareMultiply_modEq
    (exactly : ∀ a b, small b → value (times a b) ≡ value a * value b [MOD modulus])
    {turns exponent : Nat} {base : α}
    (used : ∀ turn < turns, 2 ^ turn ≤ exponent → small (squared times turn base)) (result : α) :
    value (squareMultiply times turns exponent result base) ≡
      value result * value base ^ (exponent % 2 ^ turns) [MOD modulus] := by
  induction turns generalizing exponent base result with
  | zero => rw [Nat.pow_zero, Nat.mod_one, Nat.pow_zero, Nat.mul_one]; rfl
  | succ turns ih =>
      rcases Nat.eq_zero_or_pos exponent with rfl | positive
      · rw [squareMultiply_zero, Nat.zero_mod, Nat.pow_zero, Nat.mul_one]
      · have here : small base := used 0 (Nat.succ_pos turns) positive
        have later : ∀ turn < turns, 2 ^ turn ≤ exponent / 2 →
            small (squared times turn (times base base)) := by
          intro turn below reaches
          rw [← squared_succ]
          apply used (turn + 1) (Nat.succ_lt_succ below)
          rw [Nat.pow_succ]
          omega
        have bits : exponent % 2 ^ (turns + 1) = exponent % 2 + 2 * (exponent / 2 % 2 ^ turns) := by
          rw [Nat.pow_succ', Nat.mod_mul]
        have square : value (times base base) ^ (exponent / 2 % 2 ^ turns) ≡
            value base ^ (2 * (exponent / 2 % 2 ^ turns)) [MOD modulus] := by
          rw [pow_mul, sq]
          exact (exactly base base here).pow _
        rw [squareMultiply, bits, pow_add, ← mul_assoc]
        refine (ih later _).trans (Nat.ModEq.mul ?_ square)
        rcases Nat.mod_two_eq_zero_or_one exponent with even | odd
        · rw [if_neg (by omega), even, Nat.pow_zero, Nat.mul_one]
        · rw [if_pos odd, odd, Nat.pow_one]
          exact exactly result base here

end Value

section Exits

variable (zero one : α)

/-- No square is zero while bits are left, unless the result is zero by then. -/
def ZeroInTime (turns exponent : Nat) (result base : α) : Prop :=
  ∀ turn < turns, squared times (turn + 1) base = zero → 2 ^ (turn + 1) ≤ exponent →
    squareMultiply times (turn + 1) exponent result base = zero

variable {times zero one}

theorem squareMultiply_absorbed (absorbs : ∀ a, times a zero = zero) {turns exponent : Nat}
    (fits : exponent < 2 ^ turns) (left : exponent ≠ 0) (result : α) :
    squareMultiply times turns exponent result zero = zero := by
  induction turns generalizing exponent result with
  | zero => exact absurd fits (by omega)
  | succ turns ih =>
      rw [squareMultiply, absorbs, absorbs]
      by_cases last : exponent / 2 = 0
      · have odd : exponent % 2 = 1 := by omega
        rw [last, squareMultiply_zero, if_pos odd]
      · exact ih (by rw [Nat.pow_succ] at fits; omega) last _

theorem squareMultiply_zeros (absorbs : ∀ a, times a zero = zero) (turns exponent : Nat) :
    squareMultiply times turns exponent zero zero = zero := by
  induction turns generalizing exponent with
  | zero => rfl
  | succ turns ih =>
      rw [squareMultiply, absorbs, ite_self]
      exact ih (exponent / 2)

theorem squareMultiply_one (leaves : ∀ a, times a one = a) (turns exponent : Nat) (result : α) :
    squareMultiply times turns exponent result one = result := by
  induction turns generalizing exponent result with
  | zero => rfl
  | succ turns ih => rw [squareMultiply, leaves, leaves, ite_self, ih]

theorem squared_one (leaves : ∀ a, times a one = a) (turns : Nat) : squared times turns one = one := by
  induction turns with
  | zero => rfl
  | succ turns ih => rw [squared_succ, leaves, ih]

variable [DecidableEq α]

variable (times zero one) in
/-- The loop that stops at a square that is zero, and at one unless that is the result. -/
def squareMultiplyExits : Nat → Nat → α → α → α
  | 0, _, result, _ => result
  | turns + 1, exponent, result, base =>
      let result := if exponent % 2 = 1 then times result base else result
      let base := times base base
      if base = zero then result
      else if base = one ∧ result ≠ one then result
      else squareMultiplyExits turns (exponent / 2) result base

/-- The exits change nothing exactly when no zero comes too late. -/
theorem squareMultiplyExits_eq_iff (absorbs : ∀ a, times a zero = zero)
    (leaves : ∀ a, times a one = a) (different : one ≠ zero) {turns exponent : Nat}
    (fits : exponent < 2 ^ turns) (result base : α) :
    squareMultiplyExits times zero one turns exponent result base =
        squareMultiply times turns exponent result base ↔
      ZeroInTime times zero turns exponent result base := by
  induction turns generalizing exponent result base with
  | zero => exact iff_of_true rfl fun turn none_ => absurd none_ (Nat.not_lt_zero turn)
  | succ turns ih =>
      have half : exponent / 2 < 2 ^ turns := by
        rw [Nat.pow_succ] at fits
        omega
      have reaches (turn : Nat) : 2 ^ (turn + 1) ≤ exponent ↔ 2 ^ turn ≤ exponent / 2 := by
        rw [Nat.pow_succ]
        omega
      simp only [squareMultiplyExits, ZeroInTime, squareMultiply, squared_succ]
      generalize times base base = next
      generalize (if exponent % 2 = 1 then times result base else result) = reached
      by_cases isZero : next = zero
      · rw [if_pos isZero, isZero]
        by_cases left : exponent / 2 = 0
        · rw [left, squareMultiply_zero]
          refine iff_of_true rfl fun turn _ _ more => ?_
          exact absurd ((reaches turn).mp more) (by rw [left]; exact Nat.not_le.mpr (Nat.two_pow_pos _))
        · rw [squareMultiply_absorbed absorbs half left]
          constructor
          · intro known turn _ _ _
            rw [known, squareMultiply_zeros absorbs]
          · intro inTime
            exact inTime 0 (Nat.succ_pos turns) rfl ((reaches 0).mpr (Nat.pos_of_ne_zero left))
      · rw [if_neg isZero]
        by_cases isOne : next = one ∧ reached ≠ one
        · rw [if_pos isOne, isOne.1, squareMultiply_one leaves]
          refine iff_of_true rfl fun turn _ isZero => ?_
          exact absurd (isZero.symm.trans (squared_one leaves turn)).symm different
        · rw [if_neg isOne, ih half]
          constructor
          · intro inTime turn below known more
            cases turn with
            | zero => exact absurd known isZero
            | succ turn =>
                rw [squared_succ] at known
                exact inTime turn (Nat.lt_of_succ_lt_succ below) known ((reaches (turn + 1)).mp more)
          · intro inTime turn below known more
            exact inTime (turn + 1) (Nat.succ_lt_succ below) (by rw [squared_succ]; exact known)
              ((reaches (turn + 1)).mpr more)

theorem squareMultiplyExits_zero (turns : Nat) (result base : α) :
    squareMultiplyExits times zero one turns 0 result base = result := by
  induction turns generalizing base with
  | zero => rfl
  | succ turns ih =>
      have even : ¬ 0 % 2 = 1 := by decide
      simp only [squareMultiplyExits, if_neg even, Nat.zero_div, ih, ite_self]

/-- A turn ends the loop with the result it reaches, or goes on with a square that is not zero. -/
theorem squareMultiplyExits_turn (turns exponent : Nat) (result base : α) {reached : α}
    (isReached : (if exponent % 2 = 1 then times result base else result) = reached) :
    squareMultiplyExits times zero one (turns + 1) exponent result base = reached ∨
      times base base ≠ zero ∧ squareMultiplyExits times zero one (turns + 1) exponent result base =
        squareMultiplyExits times zero one turns (exponent / 2) reached (times base base) := by
  simp only [squareMultiplyExits, isReached]
  by_cases isZero : times base base = zero
  · exact .inl (if_pos isZero)
  · rw [if_neg isZero]
    by_cases isOne : times base base = one ∧ reached ≠ one
    · exact .inl (if_pos isOne)
    · exact .inr ⟨isZero, if_neg isOne⟩

theorem power_parts (start base exponent : Nat) :
    start * base ^ exponent = start * base ^ (exponent % 2) * (base * base) ^ (exponent / 2) := by
  rw [← sq, ← pow_mul, mul_assoc, ← pow_add, Nat.mod_add_div]

/-- A product that reaches its bound has factors that reach theirs. -/
theorem factors_of_bound {first second factor power count : Nat} (least : first ≤ factor)
    (less : second ≤ power) (some_ : count ≠ 0) (positive : 0 < factor) (nonzero : 0 < power)
    (reached : factor * power ^ count ≤ first * second ^ count) :
    first = factor ∧ second = power := by
  have powers : second ^ count ≤ power ^ count := Nat.pow_le_pow_left less _
  have bound : 0 < factor * power ^ count := Nat.mul_pos positive (Nat.pow_pos nonzero)
  have starts : 0 < first := Nat.pos_of_mul_pos_right (bound.trans_le reached)
  obtain ⟨same, samePower⟩ :=
    (mul_eq_mul_iff_eq_and_eq_of_pos least powers starts (Nat.pow_pos nonzero)).mp
      ((Nat.mul_le_mul least powers).antisymm reached)
  exact ⟨same, Nat.pow_left_injective some_ samePower⟩

section Bounds

variable {value : α → Nat} (zero_of_value : ∀ a, value a = 0 → a = zero)
  (short : ∀ a b, value (times a b) ≤ value a * value b)

omit [DecidableEq α] in
include short in
theorem squareMultiply_turn_le (exponent : Nat) (result base : α) :
    value (if exponent % 2 = 1 then times result base else result) ≤
      value result * value base ^ (exponent % 2) := by
  rcases Nat.mod_two_eq_zero_or_one exponent with even | odd
  · rw [if_neg (by omega), even, Nat.pow_zero, Nat.mul_one]
  · rw [if_pos odd, odd, Nat.pow_one]
    exact short result base

include zero_of_value short in
/-- Products that are never too large keep the result below the power. -/
theorem squareMultiplyExits_le {turns exponent : Nat} {result base : α} (positive : 0 < value base) :
    value (squareMultiplyExits times zero one turns exponent result base) ≤
      value result * value base ^ exponent := by
  induction turns generalizing exponent result base with
  | zero => exact Nat.le_mul_of_pos_right _ (Nat.pow_pos positive)
  | succ turns ih =>
      have turn := squareMultiply_turn_le short exponent result base
      generalize isReached : (if exponent % 2 = 1 then times result base else result) = reached
        at turn
      rcases squareMultiplyExits_turn turns exponent result base isReached with
        ended | ⟨nonzero, goes⟩
      · rw [ended]
        exact turn.trans
          (Nat.mul_le_mul_left _ (Nat.pow_le_pow_right positive (Nat.mod_le exponent 2)))
      · have next : 0 < value (times base base) :=
          Nat.pos_of_ne_zero fun nothing => nonzero (zero_of_value _ nothing)
        rw [goes, power_parts]
        exact (ih next).trans (Nat.mul_le_mul turn (Nat.pow_le_pow_left (short base base) _))

variable {cut : Nat}
  (shorter : ∀ a b, 0 < value a → cut ≤ value b → value (times a b) < value a * value b)

include zero_of_value short shorter in
/-- If large factors make a product too small, a power that is exact multiplies by none. -/
theorem squareMultiplyExits_exact (above : 1 < cut) {turns exponent : Nat} {result base : α}
    (fits : exponent < 2 ^ turns) (left : exponent ≠ 0) (nonzero : 0 < value result)
    (positive : 0 < value base)
    (exactly : value (squareMultiplyExits times zero one turns exponent result base) =
      value result * value base ^ exponent) : value base ^ 2 ^ Nat.log2 exponent < cut := by
  induction turns generalizing exponent result base with
  | zero => exact absurd fits (by omega)
  | succ turns ih =>
      have turn := squareMultiply_turn_le short exponent result base
      by_cases last : exponent / 2 = 0
      · have isOne : exponent = 1 := by omega
        subst isOne
        simp only [squareMultiplyExits, last, squareMultiplyExits_zero, ite_self,
          Nat.pow_one] at exactly
        have top : Nat.log2 1 = 0 := by decide
        rw [top, Nat.pow_zero, Nat.pow_one]
        exact Nat.lt_of_not_ge fun large => (shorter result base nonzero large).ne exactly
      · by_cases trivial_ : value base = 1
        · rw [trivial_, Nat.one_pow]
          exact above
        · generalize isReached : (if exponent % 2 = 1 then times result base else result) = reached
            at turn
          rcases squareMultiplyExits_turn turns exponent result base isReached with
            ended | ⟨some_, goes⟩
          · have grows : value result * value base ^ (exponent % 2) <
                value result * value base ^ exponent :=
              Nat.mul_lt_mul_of_pos_left (Nat.pow_lt_pow_right (by omega) (by omega)) nonzero
            rw [ended] at exactly
            exact absurd (exactly ▸ turn) (Nat.not_le.mpr grows)
          · have next : 0 < value (times base base) :=
              Nat.pos_of_ne_zero fun nothing => some_ (zero_of_value _ nothing)
            have most : value (squareMultiplyExits times zero one turns (exponent / 2) reached
                (times base base)) ≤ value reached * value (times base base) ^ (exponent / 2) :=
              squareMultiplyExits_le zero_of_value short next
            rw [goes, power_parts] at exactly
            rw [exactly] at most
            have start : 0 < value result * value base ^ (exponent % 2) :=
              Nat.mul_pos nonzero (Nat.pow_pos positive)
            obtain ⟨reachedExactly, square⟩ := factors_of_bound turn (short base base) last start
              (Nat.mul_pos positive positive) most
            have later := ih (by rw [Nat.pow_succ] at fits; omega) last (reachedExactly ▸ start) next
              (by rw [exactly, reachedExactly, square])
            rw [Nat.log2_def, if_pos (by omega), Nat.pow_succ', pow_mul, sq, ← square]
            exact later

end Bounds

end Exits

end Parthenon.Library
