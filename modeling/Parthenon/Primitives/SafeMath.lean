import Parthenon.Library.Sums

namespace Parthenon.Primitives

open Library

namespace SafeMath

/-! # Safe math -/

def add (a b : UInt64) : Option UInt64 :=
  if a > 0xFFFFFFFFFFFFFFFF - b then none
  else some (a + b)

def mul (a b : UInt64) : Option UInt64 :=
  if a = 0 ∨ b = 0 then some 0
  else if a > 0xFFFFFFFFFFFFFFFF / b then none
  else some (a * b)

def div (a b : UInt64) : Option UInt64 :=
  if b = 0 then none
  else some (a / b)

variable {a b c : UInt64}

theorem add_some (added : add a b = some c) : c.toNat = a.toNat + b.toNat := by
  unfold add at added
  split at added
  · cases added
  · rename_i fits
    cases added
    exact toNat_add_of_fits (add_fits_iff.mp fits)

theorem mul_some (multiplied : mul a b = some c) : c.toNat = a.toNat * b.toNat := by
  unfold mul at multiplied
  split at multiplied
  · rename_i zero
    cases multiplied
    rcases zero with rfl | rfl <;> simp
  · rename_i nonzero
    split at multiplied
    · cases multiplied
    · rename_i fits
      cases multiplied
      obtain ⟨_, positive⟩ := not_or.mp nonzero
      rw [UInt64.toNat_mul, Nat.mod_eq_of_lt]
      rw [Nat.mul_comm]
      exact (mul_fits_iff positive).mp fits

theorem add_of_fits (fits : a.toNat + b.toNat < 2 ^ 64) : add a b = some (a + b) := by
  rw [add, if_neg (add_fits_iff.mpr fits)]

theorem mul_of_fits (fits : a.toNat * b.toNat < 2 ^ 64) : mul a b = some (a * b) := by
  unfold mul
  split
  · rename_i zero
    rcases zero with rfl | rfl <;> simp
  · rename_i nonzero
    obtain ⟨_, positive⟩ := not_or.mp nonzero
    rw [Nat.mul_comm] at fits
    rw [if_neg ((mul_fits_iff positive).mpr fits)]

theorem mul_eq_some_iff : mul a b = some c ↔ a.toNat * b.toNat = c.toNat := by
  refine ⟨fun multiplied => (mul_some multiplied).symm, fun product => ?_⟩
  have fits : a.toNat * b.toNat < 2 ^ 64 := product ▸ c.toNat_lt
  rw [mul_of_fits fits, Option.some.injEq, ← UInt64.toNat_inj, UInt64.toNat_mul,
    Nat.mod_eq_of_lt fits, product]

theorem div_of_ne_zero (nonzero : b ≠ 0) : div a b = some (a / b) := if_neg nonzero

theorem div_some (divided : div a b = some c) : b ≠ 0 ∧ c = a / b := by
  unfold div at divided
  split at divided
  · cases divided
  · rename_i nonzero
    cases divided
    exact ⟨nonzero, rfl⟩

end SafeMath

end Parthenon.Primitives
