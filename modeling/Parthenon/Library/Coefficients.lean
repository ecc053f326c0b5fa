import Mathlib.Algebra.Polynomial.Eval.Defs
import Mathlib.Algebra.Polynomial.Eval.Coeff
import Mathlib.Data.List.GetD
import Mathlib.Tactic.Ring

namespace Parthenon.Library

open Polynomial

/-! # Coefficient lists

A polynomial as the list of its coefficients, the constant one first, with any number of zeros
at the end.
-/

variable {R : Type u} [CommRing R]

noncomputable def ofCoefficients : List R → R[X]
  | [] => 0
  | first :: rest => C first + X * ofCoefficients rest

theorem coeff_ofCoefficients (coefficients : List R) (degree : Nat) :
    (ofCoefficients coefficients).coeff degree = coefficients.getD degree 0 := by
  induction coefficients generalizing degree with
  | nil => rw [ofCoefficients, coeff_zero, List.getD_nil]
  | cons first rest ih =>
      rw [ofCoefficients, coeff_add]
      cases degree with
      | zero => rw [coeff_C_zero, mul_coeff_zero, coeff_X_zero, zero_mul, add_zero, List.getD_cons_zero]
      | succ degree =>
          rw [coeff_C_succ, coeff_X_mul, ih, zero_add, List.getD_cons_succ]

/-- A polynomial is told by its coefficients. -/
theorem ofCoefficients_eq_iff {coefficients : List R} {polynomial : R[X]} :
    ofCoefficients coefficients = polynomial ↔
      ∀ degree, coefficients.getD degree 0 = polynomial.coeff degree := by
  rw [Polynomial.ext_iff]
  exact forall_congr' fun degree => by rw [coeff_ofCoefficients]

theorem ofCoefficients_replicate (count : Nat) : ofCoefficients (List.replicate count (0 : R)) = 0 := by
  refine ofCoefficients_eq_iff.mpr fun degree => ?_
  rw [coeff_zero, List.getD_eq_getElem?_getD, List.getElem?_replicate]
  split <;> rfl

theorem eval_ofCoefficients (coefficients : List R) (point : R) :
    (ofCoefficients coefficients).eval point =
      coefficients.foldr (fun coefficient sum => coefficient + point * sum) 0 := by
  induction coefficients with
  | nil => exact eval_zero
  | cons first rest ih =>
      rw [ofCoefficients, eval_add, eval_mul, eval_C, eval_X, ih, List.foldr_cons]

theorem ofCoefficients_modify {coefficients : List R} {place : Nat}
    (inside : place < coefficients.length) (added : R) :
    ofCoefficients (coefficients.modify place (· + added)) =
      ofCoefficients coefficients + C added * X ^ place := by
  refine ofCoefficients_eq_iff.mpr fun degree => ?_
  rw [coeff_add, coeff_ofCoefficients, coeff_C_mul_X_pow, List.getD_eq_getElem?_getD,
    List.getD_eq_getElem?_getD, List.getElem?_modify]
  by_cases same : place = degree
  · subst same
    simp [List.getElem?_eq_getElem inside]
  · simp [same, Ne.symm same]

/-- One row of a product: the second factor times a term of the first, added in place. -/
theorem ofCoefficients_row (second result : List R) (coefficient : R) (place start : Nat)
    (inside : second = [] ∨ place + start + second.length ≤ result.length) :
    let row := (second.zipIdx start).foldl
      (fun result term => result.modify (place + term.2) (· + coefficient * term.1)) result
    row.length = result.length ∧
      ofCoefficients row =
        ofCoefficients result + C coefficient * X ^ (place + start) * ofCoefficients second := by
  induction second generalizing start result with
  | nil =>
      refine ⟨rfl, ?_⟩
      rw [ofCoefficients, mul_zero, add_zero]
      rfl
  | cons first rest ih =>
      have fits : place + start + (rest.length + 1) ≤ result.length :=
        inside.resolve_left (List.cons_ne_nil _ _)
      obtain ⟨length, rows⟩ := ih (result.modify (place + start) (· + coefficient * first)) (start + 1)
        (.inr (by rw [List.length_modify]; omega))
      rw [List.length_modify] at length
      refine ⟨length, ?_⟩
      rw [List.zipIdx_cons, List.foldl_cons, rows, ofCoefficients_modify (by omega), ofCoefficients,
        C_mul, ← add_assoc, pow_succ]
      ring

/-- The product, row by row, added in place. -/
theorem ofCoefficients_rows (first second result : List R) (start : Nat)
    (inside : second = [] ∨ first = [] ∨ start + first.length + second.length ≤ result.length + 1) :
    let product := (first.zipIdx start).foldl
      (fun result one => second.zipIdx.foldl
        (fun result other => result.modify (one.2 + other.2) (· + one.1 * other.1)) result) result
    product.length = result.length ∧
      ofCoefficients product =
        ofCoefficients result + X ^ start * ofCoefficients first * ofCoefficients second := by
  induction first generalizing start result with
  | nil =>
      refine ⟨rfl, ?_⟩
      rw [ofCoefficients, mul_zero, zero_mul, add_zero]
      rfl
  | cons coefficient rest ih =>
      have fits : second = [] ∨ start + (rest.length + 1) + second.length ≤ result.length + 1 :=
        inside.imp_right fun either => either.resolve_left (List.cons_ne_nil _ _)
      obtain ⟨rowLength, row⟩ := ofCoefficients_row second result coefficient start 0
        (fits.imp_right fun _ => by omega)
      obtain ⟨length, rows⟩ := ih _ (start + 1) (fits.imp_right fun _ => .inr (by
        rw [rowLength]
        omega))
      refine ⟨length.trans rowLength, ?_⟩
      rw [List.zipIdx_cons, List.foldl_cons, rows, row, ofCoefficients, pow_succ]
      ring

end Parthenon.Library
