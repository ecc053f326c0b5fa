import Mathlib.Data.UInt
import Mathlib.Order.Bounds.Basic
import Parthenon.Library.Coefficients

namespace Parthenon.Crypto

open Library Polynomial
open scoped UInt64.CommRing

/-! # Computation on ciphertexts

A ciphertext is a polynomial over 64-bit numbers whose constant coefficient is the plaintext.
The noise budget is told with a ciphertext and asked for by nothing.
-/

structure Ciphertext where
  coefficients : List UInt64
  noiseBudget : UInt32
deriving DecidableEq, Repr

def Ciphertext.empty : Ciphertext := { coefficients := [], noiseBudget := 0 }

namespace BFVEncryption

/-- The keys are not used. -/
def encrypt (plaintext : UInt64) : Ciphertext := { coefficients := [plaintext, 0], noiseBudget := 100 }

def decrypt (ciphertext : Ciphertext) : UInt64 :=
  match ciphertext.coefficients with
  | [] => 0
  | constant :: _ => constant

/-- Coefficient by coefficient, with zeros for those that the shorter one lacks. -/
def pointwise (operation : UInt64 → UInt64 → UInt64) (a b : Ciphertext) : Ciphertext where
  coefficients :=
    (List.range (max a.coefficients.length b.coefficients.length)).map fun index =>
      operation (a.coefficients.getD index 0) (b.coefficients.getD index 0)
  noiseBudget := min a.noiseBudget b.noiseBudget

def add (a b : Ciphertext) : Ciphertext := pointwise (· + ·) a b

def subtract (a b : Ciphertext) : Ciphertext := pointwise (· - ·) a b

/-- No vector has the size that two empty ciphertexts ask for. -/
def multiply (a b : Ciphertext) : Option Ciphertext :=
  if a.coefficients.length + b.coefficients.length = 0 then none
  else
    some
      { coefficients := a.coefficients.zipIdx.foldl
          (fun result one => b.coefficients.zipIdx.foldl
            (fun result other => result.modify (one.2 + other.2) (· + one.1 * other.1)) result)
          (List.replicate (a.coefficients.length + b.coefficients.length - 1) 0)
        noiseBudget := min a.noiseBudget b.noiseBudget / 2 }

end BFVEncryption

namespace HomomorphicCompute

open BFVEncryption

def sum : List Ciphertext → Ciphertext
  | [] => .empty
  | first :: rest => rest.foldl add first

def average (values : List Ciphertext) : Ciphertext :=
  if values.isEmpty then .empty
  else
    let result := sum values
    { result with coefficients := result.coefficients.map (· / UInt64.ofNat values.length) }

def compare (a b : Ciphertext) : Ciphertext :=
  { coefficients := [if decrypt a ≥ decrypt b then 1 else 0], noiseBudget := 0 }

/-- The loop of `EvaluatePolynomial`. -/
def evaluateFrom (x : Ciphertext) : List UInt64 → Ciphertext → Ciphertext → Option Ciphertext
  | [], result, _ => some result
  | coefficient :: rest, result, xPower =>
      match multiply (encrypt coefficient) xPower with
      | none => none
      | some term =>
          match multiply xPower x with
          | none => none
          | some xPower => evaluateFrom x rest (add result term) xPower

def evaluatePolynomial (x : Ciphertext) : List UInt64 → Option Ciphertext
  | [] => some .empty
  | constant :: higher => evaluateFrom x higher (encrypt constant) x

end HomomorphicCompute

/-! ## What a ciphertext stands for -/

namespace Ciphertext

variable {a b : Ciphertext}

noncomputable def meaning (ciphertext : Ciphertext) : UInt64[X] := ofCoefficients ciphertext.coefficients

def Filled (ciphertext : Ciphertext) : Prop := ciphertext.coefficients ≠ []

theorem decrypt_eq (ciphertext : Ciphertext) :
    BFVEncryption.decrypt ciphertext = ciphertext.meaning.eval 0 := by
  rw [← coeff_zero_eq_eval_zero, meaning, coeff_ofCoefficients, BFVEncryption.decrypt]
  cases ciphertext.coefficients <;> rfl

theorem meaning_encrypt (plaintext : UInt64) :
    (BFVEncryption.encrypt plaintext).meaning = C plaintext := by
  rw [meaning, BFVEncryption.encrypt, ofCoefficients, ofCoefficients, ofCoefficients, C_0, mul_zero,
    add_zero, mul_zero, add_zero]

theorem getD_pointwise (operation : UInt64 → UInt64 → UInt64) (zero : operation 0 0 = 0) (index : Nat) :
    (BFVEncryption.pointwise operation a b).coefficients.getD index 0 =
      operation (a.coefficients.getD index 0) (b.coefficients.getD index 0) := by
  rw [BFVEncryption.pointwise, List.getD_eq_getElem?_getD, List.getElem?_map]
  by_cases inside : index < max a.coefficients.length b.coefficients.length
  · rw [List.getElem?_range inside]
    rfl
  · rw [List.getElem?_eq_none (by rwa [List.length_range, ← Nat.not_lt]),
      List.getD_eq_default _ _ (by omega), List.getD_eq_default _ _ (by omega), zero]
    rfl

theorem meaning_add (a b : Ciphertext) :
    (BFVEncryption.add a b).meaning = a.meaning + b.meaning := by
  refine ofCoefficients_eq_iff.mpr fun degree => ?_
  rw [BFVEncryption.add, getD_pointwise _ rfl, coeff_add, meaning, meaning, coeff_ofCoefficients,
    coeff_ofCoefficients]

theorem meaning_subtract (a b : Ciphertext) :
    (BFVEncryption.subtract a b).meaning = a.meaning - b.meaning := by
  refine ofCoefficients_eq_iff.mpr fun degree => ?_
  rw [BFVEncryption.subtract, getD_pointwise _ rfl, coeff_sub, meaning, meaning, coeff_ofCoefficients,
    coeff_ofCoefficients]

theorem filled_pointwise {operation : UInt64 → UInt64 → UInt64} (filled : a.Filled) :
    (BFVEncryption.pointwise operation a b).Filled := by
  have some_ := List.length_pos_of_ne_nil filled
  apply List.ne_nil_of_length_pos
  rw [BFVEncryption.pointwise, List.length_map, List.length_range]
  omega

theorem multiply_filled (filled : a.Filled) (filledOther : b.Filled) :
    ∃ product, BFVEncryption.multiply a b = some product ∧ product.Filled ∧
      product.meaning = a.meaning * b.meaning ∧
      product.noiseBudget = min a.noiseBudget b.noiseBudget / 2 := by
  have some_ := List.length_pos_of_ne_nil filled
  have someOther := List.length_pos_of_ne_nil filledOther
  obtain ⟨length, product⟩ := ofCoefficients_rows a.coefficients b.coefficients
    (List.replicate (a.coefficients.length + b.coefficients.length - 1) 0) 0
    (.inr (.inr (by rw [List.length_replicate]; omega)))
  rw [BFVEncryption.multiply, if_neg (by omega)]
  refine ⟨_, rfl, ?_, ?_, rfl⟩
  · apply List.ne_nil_of_length_pos
    rw [length, List.length_replicate]
    omega
  · rw [meaning, product, ofCoefficients_replicate, zero_add, pow_zero, one_mul]
    rfl

end Ciphertext

namespace HomomorphicCompute

theorem sum_decrypts (values : List Ciphertext) :
    BFVEncryption.decrypt (sum values) = (values.map BFVEncryption.decrypt).sum := by
  have added (first : Ciphertext) (rest : List Ciphertext) :
      BFVEncryption.decrypt (rest.foldl BFVEncryption.add first) =
        BFVEncryption.decrypt first + (rest.map BFVEncryption.decrypt).sum := by
    induction rest generalizing first with
    | nil => exact (add_zero _).symm
    | cons next rest ih =>
        rw [List.foldl_cons, ih, List.map_cons, List.sum_cons, ← add_assoc, Ciphertext.decrypt_eq,
          Ciphertext.meaning_add, eval_add, ← Ciphertext.decrypt_eq, ← Ciphertext.decrypt_eq]
  cases values with
  | nil => rfl
  | cons first rest => rw [sum, added, List.map_cons, List.sum_cons]

/-- The sum wraps before it is divided. -/
theorem average_decrypts (values : List Ciphertext) :
    BFVEncryption.decrypt (average values) =
      (values.map BFVEncryption.decrypt).sum / UInt64.ofNat values.length := by
  rw [← sum_decrypts, average]
  cases values with
  | nil => rfl
  | cons first rest =>
      rw [if_neg (by simp)]
      unfold BFVEncryption.decrypt
      dsimp only
      cases (sum (first :: rest)).coefficients with
      | nil => exact UInt64.zero_div.symm
      | cons constant others => rfl

end HomomorphicCompute

/-! ## Circuits -/

/-- Computations on ciphertexts.  A polynomial has its constant coefficient apart. -/
inductive Circuit
  | given (ciphertext : Ciphertext) (filled : ciphertext.Filled)
  | encrypt (plaintext : UInt64)
  | add (a b : Circuit)
  | subtract (a b : Circuit)
  | multiply (a b : Circuit)
  | compare (a b : Circuit)
  | evaluatePolynomial (x : Circuit) (constant : UInt64) (higher : List UInt64)

namespace Circuit

/-- The computation on the ciphertexts.  `none` is an exception. -/
def run : Circuit → Option Ciphertext
  | given ciphertext _ => some ciphertext
  | encrypt plaintext => some (BFVEncryption.encrypt plaintext)
  | add a b => a.run.bind fun a => b.run.map fun b => BFVEncryption.add a b
  | subtract a b => a.run.bind fun a => b.run.map fun b => BFVEncryption.subtract a b
  | multiply a b => a.run.bind fun a => b.run.bind fun b => BFVEncryption.multiply a b
  | compare a b => a.run.bind fun a => b.run.map fun b => HomomorphicCompute.compare a b
  | evaluatePolynomial x constant higher =>
      x.run.bind fun x => HomomorphicCompute.evaluatePolynomial x (constant :: higher)

/-- The same computation on the plaintexts. -/
def value : Circuit → UInt64
  | given ciphertext _ => BFVEncryption.decrypt ciphertext
  | encrypt plaintext => plaintext
  | add a b => a.value + b.value
  | subtract a b => a.value - b.value
  | multiply a b => a.value * b.value
  | compare a b => if a.value ≥ b.value then 1 else 0
  | evaluatePolynomial x constant higher =>
      (constant :: higher).foldr (fun coefficient sum => coefficient + x.value * sum) 0

noncomputable def polynomial : Circuit → UInt64[X]
  | given ciphertext _ => ciphertext.meaning
  | encrypt plaintext => C plaintext
  | add a b => a.polynomial + b.polynomial
  | subtract a b => a.polynomial - b.polynomial
  | multiply a b => a.polynomial * b.polynomial
  | compare a b => C (if a.value ≥ b.value then 1 else 0)
  | evaluatePolynomial x constant higher => (ofCoefficients (constant :: higher)).comp x.polynomial

/-- What is left, at the end, of the budget of each ciphertext that the computation begins with:
each multiplication on the way halves it. -/
def budgets : Circuit → List Nat
  | given ciphertext _ => [ciphertext.noiseBudget.toNat]
  | encrypt _ => [100]
  | add a b | subtract a b => a.budgets ++ b.budgets
  | multiply a b => (a.budgets ++ b.budgets).map (· / 2)
  | compare _ _ => [0]
  | evaluatePolynomial _ _ [] => [100]
  | evaluatePolynomial x _ (_ :: higher) =>
      100 :: 50 :: x.budgets.map (· / 2 ^ (higher.length + 1))

theorem value_eq (circuit : Circuit) : circuit.value = circuit.polynomial.eval 0 := by
  induction circuit with
  | given ciphertext _ => exact ciphertext.decrypt_eq
  | encrypt plaintext => rw [value, polynomial, eval_C]
  | add a b ihA ihB => rw [value, polynomial, eval_add, ihA, ihB]
  | subtract a b ihA ihB => rw [value, polynomial, eval_sub, ihA, ihB]
  | multiply a b ihA ihB => rw [value, polynomial, eval_mul, ihA, ihB]
  | compare a b _ _ => rw [value, polynomial, eval_C]
  | evaluatePolynomial x constant higher ih =>
      rw [value, polynomial, eval_comp, eval_ofCoefficients, ih]

/-- The least of the numbers, halved, is the least of the halves. -/
theorem isLeast_map {budgets : List Nat} {least : Nat} {lower : Nat → Nat} (monotone : Monotone lower)
    (isLeast : IsLeast { budget | budget ∈ budgets } least) :
    IsLeast { budget | budget ∈ budgets.map lower } (lower least) := by
  refine ⟨List.mem_map_of_mem isLeast.1, ?_⟩
  intro budget member
  obtain ⟨before, inside, rfl⟩ := List.mem_map.mp member
  exact monotone (isLeast.2 inside)

theorem isLeast_append {budgets others : List Nat} {least other : Nat}
    (isLeast : IsLeast { budget | budget ∈ budgets } least)
    (isLeastOther : IsLeast { budget | budget ∈ others } other) :
    IsLeast { budget | budget ∈ budgets ++ others } (min least other) := by
  have together : { budget | budget ∈ budgets ++ others } =
      { budget | budget ∈ budgets } ∪ { budget | budget ∈ others } := by
    ext budget
    exact List.mem_append
  rw [together]
  exact isLeast.union isLeastOther

theorem toNat_min (a b : UInt32) : (min a b).toNat = min a.toNat b.toNat := by
  change (if a ≤ b then a else b).toNat = _
  split
  · rename_i le
    exact (min_eq_left (UInt32.le_iff_toNat_le.mp le)).symm
  · rename_i lt
    exact (min_eq_right (le_of_lt (UInt32.lt_iff_toNat_lt.mp (UInt32.not_le.mp lt)))).symm

/-- The loop adds up the terms, and each of them costs the budget one multiplication more. -/
theorem evaluateFrom_filled {x : Ciphertext} (filled : x.Filled) (coefficients : List UInt64)
    {result xPower : Ciphertext} (filledResult : result.Filled) (filledPower : xPower.Filled) {power : Nat}
    (spent : xPower.noiseBudget.toNat = x.noiseBudget.toNat / 2 ^ power) :
    ∃ sum, HomomorphicCompute.evaluateFrom x coefficients result xPower = some sum ∧ sum.Filled ∧
      sum.meaning = result.meaning + xPower.meaning * (ofCoefficients coefficients).comp x.meaning ∧
      sum.noiseBudget.toNat = if coefficients = [] then result.noiseBudget.toNat
        else min result.noiseBudget.toNat
          (min 50 (x.noiseBudget.toNat / 2 ^ (power + coefficients.length))) := by
  induction coefficients generalizing result xPower power with
  | nil =>
      refine ⟨result, rfl, filledResult, ?_, ?_⟩
      · rw [ofCoefficients, zero_comp, mul_zero, add_zero]
      · rw [if_pos rfl]
  | cons coefficient rest ih =>
      obtain ⟨term, multiplied, filledTerm, meaningTerm, budgetTerm⟩ :=
        Ciphertext.multiply_filled (a := BFVEncryption.encrypt coefficient) (List.cons_ne_nil _ _)
          filledPower
      obtain ⟨next, raised, filledNext, meaningNext, budgetNext⟩ :=
        Ciphertext.multiply_filled filledPower filled
      have halved : next.noiseBudget.toNat = x.noiseBudget.toNat / 2 ^ (power + 1) := by
        have smaller := Nat.div_le_self x.noiseBudget.toNat (2 ^ power)
        rw [budgetNext, UInt32.toNat_div, toNat_min, spent, min_eq_left smaller, pow_succ,
          ← Nat.div_div_eq_div_mul]
        rfl
      have cost : term.noiseBudget.toNat = min 50 (x.noiseBudget.toNat / 2 ^ (power + 1)) := by
        rw [budgetTerm, UInt32.toNat_div, toNat_min, spent, pow_succ, ← Nat.div_div_eq_div_mul]
        change min 100 _ / 2 = _
        omega
      have filledMore : (BFVEncryption.add result term).Filled :=
        Ciphertext.filled_pointwise filledResult
      obtain ⟨sum, summed, filledSum, meaningSum, budgetSum⟩ := ih filledMore filledNext halved
      refine ⟨sum, ?_, filledSum, ?_, ?_⟩
      · rw [HomomorphicCompute.evaluateFrom, multiplied]
        dsimp only
        rw [raised]
        exact summed
      · rw [meaningSum, Ciphertext.meaning_add, meaningTerm, meaningNext, Ciphertext.meaning_encrypt,
          ofCoefficients, add_comp, C_comp, mul_comp, X_comp]
        ring
      · rw [budgetSum, if_neg (List.cons_ne_nil _ _), List.length_cons, BFVEncryption.add,
          BFVEncryption.pointwise]
        dsimp only
        rw [toNat_min, cost]
        have shift : power + 1 + rest.length = power + (rest.length + 1) := by omega
        have later : x.noiseBudget.toNat / 2 ^ (power + (rest.length + 1)) ≤
            x.noiseBudget.toNat / 2 ^ (power + 1) :=
          Nat.div_le_div_left (Nat.pow_le_pow_right (by decide) (by omega)) (Nat.two_pow_pos _)
        rw [shift]
        split
        · rename_i last
          rw [last, List.length_nil]
        · omega

/-- What a computation comes to. -/
structure Result (circuit : Circuit) (result : Ciphertext) : Prop where
  run : circuit.run = some result
  filled : result.Filled
  meaning : result.meaning = circuit.polynomial
  budget : IsLeast { budget | budget ∈ circuit.budgets } result.noiseBudget.toNat

theorem exists_result (circuit : Circuit) : ∃ result, circuit.Result result := by
  induction circuit with
  | given ciphertext filled => exact ⟨ciphertext, rfl, filled, rfl, by simp [budgets]⟩
  | encrypt plaintext =>
      exact ⟨BFVEncryption.encrypt plaintext, rfl, List.cons_ne_nil _ _,
        Ciphertext.meaning_encrypt plaintext, by simp [budgets, BFVEncryption.encrypt]⟩
  | add a b ihA ihB =>
      obtain ⟨first, one⟩ := ihA
      obtain ⟨second, two⟩ := ihB
      refine ⟨BFVEncryption.add first second, ?_, Ciphertext.filled_pointwise one.filled, ?_, ?_⟩
      · rw [run, one.run, two.run]
        rfl
      · rw [Ciphertext.meaning_add, one.meaning, two.meaning, polynomial]
      · rw [budgets, BFVEncryption.add, BFVEncryption.pointwise, toNat_min]
        exact isLeast_append one.budget two.budget
  | subtract a b ihA ihB =>
      obtain ⟨first, one⟩ := ihA
      obtain ⟨second, two⟩ := ihB
      refine ⟨BFVEncryption.subtract first second, ?_, Ciphertext.filled_pointwise one.filled, ?_, ?_⟩
      · rw [run, one.run, two.run]
        rfl
      · rw [Ciphertext.meaning_subtract, one.meaning, two.meaning, polynomial]
      · rw [budgets, BFVEncryption.subtract, BFVEncryption.pointwise, toNat_min]
        exact isLeast_append one.budget two.budget
  | multiply a b ihA ihB =>
      obtain ⟨first, one⟩ := ihA
      obtain ⟨second, two⟩ := ihB
      obtain ⟨product, multiplied, filled, meaning, budget⟩ :=
        Ciphertext.multiply_filled one.filled two.filled
      refine ⟨product, ?_, filled, ?_, ?_⟩
      · rw [run, one.run, two.run]
        exact multiplied
      · rw [meaning, one.meaning, two.meaning, polynomial]
      · rw [budgets, budget, UInt32.toNat_div, toNat_min]
        exact isLeast_map (fun _ _ le => Nat.div_le_div_right le) (isLeast_append one.budget two.budget)
  | compare a b ihA ihB =>
      obtain ⟨first, one⟩ := ihA
      obtain ⟨second, two⟩ := ihB
      refine ⟨HomomorphicCompute.compare first second, ?_, List.cons_ne_nil _ _, ?_, ?_⟩
      · rw [run, one.run, two.run]
        rfl
      · rw [Ciphertext.meaning, HomomorphicCompute.compare, ofCoefficients, ofCoefficients, mul_zero,
          add_zero, first.decrypt_eq, second.decrypt_eq, one.meaning, two.meaning, ← value_eq,
          ← value_eq, polynomial]
      · simp [budgets, HomomorphicCompute.compare]
  | evaluatePolynomial x constant higher ih =>
      obtain ⟨point, one⟩ := ih
      have filledConstant : (BFVEncryption.encrypt constant).Filled := List.cons_ne_nil _ _
      have unspent : point.noiseBudget.toNat = point.noiseBudget.toNat / 2 ^ 0 := by
        rw [pow_zero, Nat.div_one]
      obtain ⟨sum, summed, filled, meaning, budget⟩ :=
        evaluateFrom_filled one.filled higher filledConstant one.filled unspent
      refine ⟨sum, ?_, filled, ?_, ?_⟩
      · rw [run, one.run]
        exact summed
      · rw [meaning, Ciphertext.meaning_encrypt, one.meaning, polynomial, ofCoefficients, add_comp,
          C_comp, mul_comp, X_comp]
      · rw [budget, Nat.zero_add]
        cases higher with
        | nil => simp [budgets, BFVEncryption.encrypt]
        | cons next rest =>
            rw [if_neg (List.cons_ne_nil _ _), budgets, List.length_cons]
            have constantBudget : IsLeast { budget | budget ∈ [100] }
                (BFVEncryption.encrypt constant).noiseBudget.toNat := by
              simp [BFVEncryption.encrypt]
            have termBudget : IsLeast { budget | budget ∈ [50] } 50 := by simp
            exact isLeast_append constantBudget (isLeast_append termBudget
              (isLeast_map (fun _ _ le => Nat.div_le_div_right le) one.budget))

end Circuit

end Parthenon.Crypto
