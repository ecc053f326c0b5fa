import Mathlib.Algebra.Ring.Int.Defs
import Mathlib.Data.List.Induction
import Mathlib.Data.List.Lemmas
import Mathlib.Tactic.LinearCombination
import Mathlib.Tactic.Ring

namespace Parthenon.Library

/-! # Positional numbers

A list of digits, the most significant first, stands for a number.  A pass over the
digits that hands a carry on keeps the sum of what it wrote and what it carries; it
may go up from the last digit, as an addition does, or down from the first one, as a
division does.
-/

variable {R α β σ : Type*} [CommRing R]

/-- The number of a list of digits, each read by `digit`. -/
def placeValue (radix : R) (digit : α → R) : List α → R
  | [] => 0
  | first :: rest => digit first * radix ^ rest.length + placeValue radix digit rest

theorem placeValue_append (radix : R) (digit : α → R) (high low : List α) :
    placeValue radix digit (high ++ low) =
      placeValue radix digit high * radix ^ low.length + placeValue radix digit low := by
  induction high with
  | nil => simp [placeValue]
  | cons first rest ih =>
      simp only [List.cons_append, placeValue, ih, List.length_append, pow_add]
      ring

theorem placeValue_scale (radix factor : R) (digit : α → R) (digits : List α) :
    placeValue radix (fun value => factor * digit value) digits =
      factor * placeValue radix digit digits := by
  induction digits with
  | nil => simp [placeValue]
  | cons first rest ih =>
      simp only [placeValue, ih]
      ring

theorem placeValue_zip (radix : R) (left : α → R) (right : β → R) {lefts : List α}
    {rights : List β} (aligned : lefts.length = rights.length) :
    placeValue radix (fun pair : α × β => left pair.1 + right pair.2) (lefts.zip rights) =
      placeValue radix left lefts + placeValue radix right rights := by
  induction lefts generalizing rights with
  | nil =>
      cases rights with
      | nil => simp [placeValue]
      | cons digit rest => cases aligned
  | cons first rest ih =>
      cases rights with
      | nil => cases aligned
      | cons digit others =>
          have shorter : rest.length = others.length := Nat.succ.inj aligned
          simp only [List.zip_cons_cons, placeValue, ih shorter, List.length_zip, shorter,
            Nat.min_self]
          ring

/-! ## Digits of a natural number -/

/-- Numbers with the same low digits are the same modulo the place behind them. -/
theorem mod_pow_eq_of_digits {radix left right places : Nat}
    (same : ∀ place < places, left / radix ^ place % radix = right / radix ^ place % radix) :
    left % radix ^ places = right % radix ^ places := by
  induction places with
  | zero => rw [Nat.pow_zero, Nat.mod_one, Nat.mod_one]
  | succ places ih =>
      have lower := ih fun place below => same place (Nat.lt_succ_of_lt below)
      rw [Nat.mod_pow_succ, Nat.mod_pow_succ, lower, same places (Nat.lt_succ_self places)]

/-- The digits in front of a place are those of the number without what is behind it. -/
theorem digit_of_high {radix left right cut place : Nat}
    (same : left / radix ^ cut = right / radix ^ cut) (front : cut ≤ place) :
    left / radix ^ place % radix = right / radix ^ place % radix := by
  obtain ⟨further, rfl⟩ := Nat.exists_eq_add_of_le front
  rw [pow_add, ← Nat.div_div_eq_div_mul, ← Nat.div_div_eq_div_mul, same]

/-- The digits behind a place are those of the number modulo that place. -/
theorem digit_of_low {radix left right cut place : Nat}
    (same : left % radix ^ cut = right % radix ^ cut) (behind : place < cut) :
    left / radix ^ place % radix = right / radix ^ place % radix := by
  have digit (value : Nat) :
      value / radix ^ place % radix = value % radix ^ cut / radix ^ place % radix := by
    obtain ⟨further, rfl⟩ := Nat.exists_eq_add_of_lt behind
    rw [show place + further + 1 = place + (further + 1) by omega, pow_add, Nat.mod_mul_right_div_self,
      pow_succ, Nat.mod_mul_left_mod]
  rw [digit left, digit right, same]

/-! ## Passes over the digits -/

/-- A step up the digits writes a digit and hands on a carry that counts `radix` times as
much, for what it reads and the carry it gets. -/
structure Carries (radix : R) (input : α → R) (output : β → R) (carry : σ → R) (valid : σ → Prop)
    (step : α → σ → σ × β) : Prop where
  keeps : ∀ digit state, valid state → valid (step digit state).1
  balance : ∀ digit state, valid state →
    output (step digit state).2 + radix * carry (step digit state).1 = input digit + carry state

theorem Carries.mapAccumr {radix : R} {input : α → R} {output : β → R} {carry : σ → R}
    {valid : σ → Prop} {step : α → σ → σ × β} (law : Carries radix input output carry valid step)
    (digits : List α) {start : σ} (starts : valid start) :
    valid (digits.mapAccumr step start).1 ∧
      placeValue radix output (digits.mapAccumr step start).2 +
          radix ^ digits.length * carry (digits.mapAccumr step start).1 =
        placeValue radix input digits + carry start := by
  induction digits with
  | nil => simpa [List.mapAccumr, placeValue] using starts
  | cons digit rest ih =>
      obtain ⟨reached, sum⟩ := ih
      have here := law.balance digit _ reached
      refine ⟨law.keeps digit _ reached, ?_⟩
      simp only [List.mapAccumr, placeValue, List.length_mapAccumr, List.length_cons, pow_succ]
      linear_combination radix ^ rest.length * here + sum

theorem mapAccumr₂_eq_zip {γ : Type*} (step : α → β → σ → σ × γ) (lefts : List α)
    (rights : List β) (start : σ) :
    List.mapAccumr₂ step lefts rights start =
      (lefts.zip rights).mapAccumr (fun pair => step pair.1 pair.2) start := by
  induction lefts generalizing rights with
  | nil => rfl
  | cons first rest ih =>
      cases rights with
      | nil => rfl
      | cons digit others => simp only [List.mapAccumr₂, List.zip_cons_cons, List.mapAccumr, ih]

/-- A step down the digits divides what it reads, with the remainder it gets in front. -/
structure Divides (radix divisor : R) (input : α → R) (output : β → R) (remainder : σ → R)
    (valid : σ → Prop) (step : α → σ → σ × β) : Prop where
  keeps : ∀ digit state, valid state → valid (step digit state).1
  balance : ∀ digit state, valid state →
    divisor * output (step digit state).2 + remainder (step digit state).1 =
      radix * remainder state + input digit

theorem Divides.mapAccumr {radix divisor : R} {input : α → R} {output : β → R} {remainder : σ → R}
    {valid : σ → Prop} {step : α → σ → σ × β}
    (law : Divides radix divisor input output remainder valid step) (digits : List α) {start : σ}
    (starts : valid start) :
    valid (digits.reverse.mapAccumr step start).1 ∧
      divisor * placeValue radix output (digits.reverse.mapAccumr step start).2.reverse +
          remainder (digits.reverse.mapAccumr step start).1 =
        radix ^ digits.length * remainder start + placeValue radix input digits := by
  induction digits using List.reverseRecOn with
  | nil => simpa [List.mapAccumr, placeValue] using starts
  | append_singleton front digit ih =>
      obtain ⟨reached, sum⟩ := ih
      have here := law.balance digit _ reached
      rw [List.reverse_append, List.reverse_singleton, List.singleton_append]
      refine ⟨law.keeps digit _ reached, ?_⟩
      simp only [List.mapAccumr, List.reverse_cons, placeValue_append, List.length_append,
        List.length_singleton, pow_succ, placeValue, List.length_nil, pow_zero, one_mul, mul_one,
        add_zero]
      linear_combination radix * sum + here

end Parthenon.Library
