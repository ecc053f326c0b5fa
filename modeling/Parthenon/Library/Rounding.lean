import Mathlib.Algebra.Order.Ring.Nat
import Mathlib.Tactic.Linarith
import Mathlib.Tactic.Ring

namespace Parthenon.Library

/-! # Rounding

Arithmetic of natural numbers whose results are rounded down: quotients, cut digits,
roots, and the price that a constant product sets.
-/

section Quotients

/-! ## Quotients

What a quotient of a product loses where the division comes first, or where the
product wraps before it.
-/

variable {factor value multiplier divisor : Nat}

/-- The quotient of a product, from the quotient and the rest of one factor. -/
theorem split_quotient (value multiplier : Nat) (positive : 0 < divisor) :
    value * multiplier / divisor =
      value / divisor * multiplier + value % divisor * multiplier / divisor := by
  have whole : value * multiplier =
      value % divisor * multiplier + divisor * (value / divisor * multiplier) := by
    calc value * multiplier = (value % divisor + divisor * (value / divisor)) * multiplier := by
          rw [Nat.mod_add_div]
      _ = value % divisor * multiplier + divisor * (value / divisor * multiplier) := by
          rw [Nat.add_mul, Nat.mul_assoc]
  rw [whole, Nat.add_mul_div_left _ _ positive, Nat.add_comm]

/-- The product of the whole part, and what the rests add to it. -/
theorem scaled_quotient (positive : 0 < divisor) (scales : 0 < factor) :
    value * multiplier / divisor / factor = value / factor * multiplier / divisor +
      (factor * (value / factor * multiplier % divisor) + value % factor * multiplier) /
        (factor * divisor) := by
  have whole := Nat.div_add_mod (value / factor * multiplier) divisor
  have parts : value * multiplier =
      factor * (value / factor * multiplier % divisor) + value % factor * multiplier +
        factor * divisor * (value / factor * multiplier / divisor) := by
    calc value * multiplier = (factor * (value / factor) + value % factor) * multiplier := by
          rw [Nat.div_add_mod]
      _ = factor * (value / factor * multiplier) + value % factor * multiplier := by ring
      _ = factor * (divisor * (value / factor * multiplier / divisor) +
            value / factor * multiplier % divisor) + value % factor * multiplier := by rw [whole]
      _ = _ := by ring
  rw [Nat.div_div_eq_div_mul, Nat.mul_comm divisor factor]
  conv_lhs => rw [parts]
  rw [Nat.add_mul_div_left _ _ (Nat.mul_pos scales positive), Nat.add_comm]

theorem quotient_first_le (positive : 0 < divisor) (scales : 0 < factor) :
    value / factor * multiplier / divisor ≤ value * multiplier / divisor / factor := by
  rw [scaled_quotient positive scales]
  exact Nat.le_add_right _ _

/-- Dividing first loses nothing exactly when the rests stay below the divisor. -/
theorem quotient_first_iff (positive : 0 < divisor) (scales : 0 < factor) :
    value / factor * multiplier / divisor = value * multiplier / divisor / factor ↔
      factor * (value / factor * multiplier % divisor) + value % factor * multiplier <
        factor * divisor := by
  rw [scaled_quotient positive scales, eq_comm, Nat.add_eq_left,
    Nat.div_eq_zero_iff_lt (Nat.mul_pos scales positive)]

/-- The quotient of a product that wrapped is short by two or more. -/
theorem wrapped_quotient {size : Nat} (wraps : size ≤ value) (small : 2 * divisor ≤ size)
    (positive : 0 < divisor) : value % size / divisor + 2 ≤ value / divisor := by
  have within : value % size + 2 * divisor ≤ value := by
    have rest := Nat.mod_add_div value size
    have turns : size * 1 ≤ size * (value / size) :=
      Nat.mul_le_mul_left size ((Nat.one_le_div_iff (by omega)).mpr wraps)
    omega
  calc value % size / divisor + 2 = (value % size + 2 * divisor) / divisor := by
        rw [Nat.add_mul_div_right _ _ positive]
    _ ≤ value / divisor := Nat.div_le_div_right within

end Quotients

section Truncation

/-! ## Numbers cut to their leading digits

A number keeps the digits from a place on.  Where the place follows from the size
of the number, the cut numbers are in the order of the numbers.
-/

/-- Clear the digits below a place. -/
def clearBelow (base place value : Nat) : Nat := value / base ^ place * base ^ place

theorem clearBelow_le (base place value : Nat) : clearBelow base place value ≤ value :=
  Nat.div_mul_le_self value (base ^ place)

theorem clearBelow_zero (base value : Nat) : clearBelow base 0 value = value := by
  rw [clearBelow, Nat.pow_zero, Nat.div_one, Nat.mul_one]

/-- A multiple of the unit below the number stays below what is left of it. -/
theorem le_clearBelow {base place value count : Nat} (positive : 0 < base)
    (below : count * base ^ place ≤ value) : count * base ^ place ≤ clearBelow base place value :=
  Nat.mul_le_mul_right _ ((Nat.le_div_iff_mul_le (Nat.pow_pos positive)).mpr below)

/-- What stands from the place on has one digit more than `lead`, and not one less unless
nothing is cleared. -/
structure Normal (base lead place value : Nat) : Prop where
  least : place = 0 ∨ lead * base ^ place ≤ value
  most : value < lead * base ^ (place + 1)

theorem clearBelow_mono {base lead place other left right : Nat} (positive : 0 < base)
    (leftNormal : Normal base lead place left) (rightNormal : Normal base lead other right)
    (ordered : left ≤ right) : clearBelow base place left ≤ clearBelow base other right := by
  rcases Nat.lt_trichotomy place other with less | same | more
  · have reaches : lead * base ^ other ≤ right := rightNormal.least.resolve_left (by omega)
    calc clearBelow base place left ≤ left := clearBelow_le base place left
      _ ≤ lead * base ^ (place + 1) := leftNormal.most.le
      _ ≤ lead * base ^ other := Nat.mul_le_mul_left lead (Nat.pow_le_pow_right positive less)
      _ ≤ clearBelow base other right := le_clearBelow positive reaches
  · rw [same]
    exact Nat.mul_le_mul_right _ (Nat.div_le_div_right ordered)
  · have reaches : lead * base ^ place ≤ left := leftNormal.least.resolve_left (by omega)
    have past : lead * base ^ (other + 1) ≤ lead * base ^ place :=
      Nat.mul_le_mul_left lead (Nat.pow_le_pow_right positive more)
    exact absurd rightNormal.most (by omega)

end Truncation

section SquareRoot

/-! ## Integer square roots

The root of a number by Newton's iteration.  Every step lands at or above the root, so the
iteration is there when it no longer goes down.
-/

variable {n x : Nat}

def newtonStep (n x : Nat) : Nat := (x + n / x) / 2

/-- A number is the root of another one, rounded down. -/
def IsRoot (n x : Nat) : Prop := x ^ 2 ≤ n ∧ n < (x + 1) ^ 2

instance (n x : Nat) : Decidable (IsRoot n x) :=
  inferInstanceAs (Decidable (x ^ 2 ≤ n ∧ n < (x + 1) ^ 2))

theorem lt_newtonStep_succ_sq (positive : 0 < x) : n < (newtonStep n x + 1) ^ 2 := by
  have below : n < x * (n / x + 1) := Nat.lt_mul_div_succ n positive
  have double : x + (n / x + 1) ≤ 2 * (newtonStep n x + 1) := by
    rw [newtonStep]
    omega
  have squares : (x + (n / x + 1)) ^ 2 ≤ (2 * (newtonStep n x + 1)) ^ 2 :=
    Nat.pow_le_pow_left double 2
  -- the arithmetic mean of two numbers is no less than the geometric one
  have means := four_mul_le_sq_add x (n / x + 1)
  nlinarith

theorem newtonStep_pos (some_ : 0 < n) (positive : 0 < x) : 0 < newtonStep n x := by
  by_contra zero
  have below := lt_newtonStep_succ_sq (n := n) positive
  rw [Nat.eq_zero_of_not_pos zero] at below
  omega

/-- Where the iteration does not go down, it is not above the root. -/
theorem sq_le_of_le_newtonStep (positive : 0 < x) (stops : x ≤ newtonStep n x) : x ^ 2 ≤ n := by
  have twice : x ≤ n / x := by
    rw [newtonStep] at stops
    omega
  rw [Nat.pow_two]
  exact (Nat.le_div_iff_mul_le positive).mp twice

/-- The sum under the step exceeds the number by one at most. -/
theorem add_div_le (positive : 0 < x) (le : x ≤ n) : x + n / x ≤ n + 1 := by
  have quotient : 1 ≤ n / x := Nat.div_pos le positive
  have product := Nat.div_mul_le_self n x
  nlinarith

end SquareRoot

section ConstantProduct

/-! ## Constant products

Two reserves between which one thing is exchanged for another, at a price that does
not let their product fall.  The input counts by a weight, in units of a scale.
-/

variable {scale weight amount reserveIn reserveOut : Nat}

/-- What the weight of an input is exchanged for. -/
def productOutput (scale weight reserveIn reserveOut : Nat) : Nat :=
  weight * reserveOut / (reserveIn * scale + weight)

theorem productOutput_lt (filled : 0 < reserveIn * scale) (some_ : 0 < reserveOut) :
    productOutput scale weight reserveIn reserveOut < reserveOut := by
  rw [productOutput, Nat.div_lt_iff_lt_mul (by omega), Nat.mul_comm]
  exact Nat.mul_lt_mul_of_pos_left (by omega) some_

theorem productOutput_le : productOutput scale weight reserveIn reserveOut ≤ reserveOut := by
  apply Nat.div_le_of_le_mul
  exact Nat.mul_le_mul_right reserveOut (Nat.le_add_left weight (reserveIn * scale))

/-- An input that counts for at most its amount does not lower the product. -/
theorem le_product_after (scales : 0 < scale) (within : weight ≤ amount * scale) :
    reserveIn * reserveOut ≤
      (reserveIn + amount) *
        (reserveOut - productOutput scale weight reserveIn reserveOut) := by
  have le : productOutput scale weight reserveIn reserveOut ≤ reserveOut := productOutput_le
  have paid : productOutput scale weight reserveIn reserveOut * (reserveIn * scale + weight) ≤
      weight * reserveOut := Nat.div_mul_le_self _ _
  generalize productOutput scale weight reserveIn reserveOut = out at le paid
  obtain ⟨left, rfl⟩ := Nat.exists_eq_add_of_le le
  rw [Nat.add_sub_cancel_left]
  -- the weight of the input has paid for what left the other reserve
  have owed : out * (reserveIn * scale) ≤ weight * left := by
    have parts : out * (reserveIn * scale) + weight * out ≤ weight * left + weight * out := by
      calc out * (reserveIn * scale) + weight * out = out * (reserveIn * scale + weight) := by ring
        _ ≤ weight * (out + left) := paid
        _ = weight * left + weight * out := by ring
    exact Nat.le_of_add_le_add_right parts
  apply Nat.le_of_mul_le_mul_left _ scales
  calc scale * (reserveIn * (out + left))
      = reserveIn * scale * left + out * (reserveIn * scale) := by ring
    _ ≤ reserveIn * scale * left + weight * left := Nat.add_le_add_left owed _
    _ ≤ reserveIn * scale * left + amount * scale * left :=
        Nat.add_le_add_left (Nat.mul_le_mul_right left within) _
    _ = scale * ((reserveIn + amount) * left) := by ring

end ConstantProduct

end Parthenon.Library
