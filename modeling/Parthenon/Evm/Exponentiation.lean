import Parthenon.Evm.WordArithmetic
import Parthenon.Library.SquareMultiply

namespace Parthenon.Evm.VM

open Library

/-! # Exponentiation

Square and multiply, with the products of the machine.  The exits are those of the
general loop over any multiplication, and a power is exact as long as every square
that is multiplied in has one byte.
-/

/-- The function with another multiplication in the place of `Mul`. -/
def expWith (times : Uint256 → Uint256 → Uint256) (base exponent : Uint256) : Uint256 :=
  if isZero exponent then toUint256 1
  else if isZero base then .zero 32
  else squareMultiplyExits times (.zero 32) (toUint256 1) 256 exponent.toNat (toUint256 1) base

/-- What the loop comes to over all bits of the exponent. -/
def fullExp (times : Uint256 → Uint256 → Uint256) (base exponent : Uint256) : Uint256 :=
  squareMultiply times 256 exponent.toNat (toUint256 1) base

theorem isZero_eq (a : Uint256) : isZero a = decide (a = .zero 32) := by
  rw [Bool.eq_iff_iff, isZero_iff, decide_eq_true_iff]
  constructor
  · intro zero
    exact Uint256.toNat_inj (zero.trans Uint256.toNat_zero.symm)
  · intro zero
    rw [zero, Uint256.toNat_zero]

theorem eq_eq (a b : Uint256) : eq a b = decide (a = b) := by
  rw [Bool.eq_iff_iff, eq_iff, decide_eq_true_iff]
  exact ⟨Uint256.toNat_inj, congrArg Uint256.toNat⟩

theorem expLoop_eq (exponent : Uint256) {start turns : Nat} (inside : start + turns ≤ 256)
    (result base : Uint256) :
    expLoop exponent (List.range' start turns) result base =
      squareMultiplyExits mul (.zero 32) (toUint256 1) turns (exponent.toNat / 2 ^ start) result
        base := by
  induction turns generalizing start result base with
  | zero => rfl
  | succ turns ih =>
      have bit : bitAt exponent (255 - start) = decide (exponent.toNat / 2 ^ start % 2 = 1) := by
        rw [bitAt_eq exponent (by omega), show 255 - (255 - start) = start by omega,
          Nat.testBit_eq_decide_div_mod_eq]
      rw [List.range'_succ, expLoop, squareMultiplyExits, bit, isZero_eq, eq_eq, eq_eq]
      simp only [decide_eq_true_eq, Bool.and_eq_true, Bool.not_eq_true', decide_eq_false_iff_not,
        ih (show start + 1 + turns ≤ 256 by omega), Nat.div_div_eq_div_mul, ← Nat.pow_succ]

theorem exp_eq (base exponent : Uint256) : exp base exponent = expWith mul base exponent := by
  have loop := expLoop_eq exponent (show 0 + 256 ≤ 256 by decide) (toUint256 1) base
  rw [Nat.pow_zero, Nat.div_one, ← List.range_eq_range'] at loop
  rw [exp, expWith, loop]

/-- No square of the base is zero while bits of the exponent are left, unless the result is
zero by then. -/
def ExitsInTime (times : Uint256 → Uint256 → Uint256) (base exponent : Uint256) : Prop :=
  base.toNat = 0 ∨ ZeroInTime times (.zero 32) 256 exponent.toNat (toUint256 1) base

section Exits

variable {times : Uint256 → Uint256 → Uint256} (absorbs : ∀ a, times a (.zero 32) = .zero 32)
  (leaves : ∀ a, times a (toUint256 1) = a)

include absorbs leaves in
theorem expWith_eq_iff (base exponent : Uint256) :
    expWith times base exponent = fullExp times base exponent ↔ ExitsInTime times base exponent := by
  have different : toUint256 1 ≠ .zero 32 := by decide
  rw [expWith, fullExp, ExitsInTime]
  by_cases none_ : exponent.toNat = 0
  · rw [if_pos (isZero_iff.mpr none_), none_, squareMultiply_zero]
    exact iff_of_true rfl (.inr fun turn _ _ more => absurd more (Nat.not_le.mpr (Nat.two_pow_pos _)))
  · rw [if_neg (isZero_iff.not.mpr none_)]
    by_cases nothing : base.toNat = 0
    · have isZero : base = .zero 32 := Uint256.toNat_inj (nothing.trans Uint256.toNat_zero.symm)
      rw [if_pos (isZero_iff.mpr nothing), isZero,
        squareMultiply_absorbed absorbs exponent.toNat_lt none_]
      exact iff_of_true rfl (.inl Uint256.toNat_zero)
    · rw [if_neg (isZero_iff.not.mpr nothing), or_iff_right nothing]
      exact squareMultiplyExits_eq_iff absorbs leaves different exponent.toNat_lt _ _

end Exits

theorem mul_toNat_of_byte (a : Uint256) {b : Uint256} (small : b.toNat < 256) :
    (mul a b).toNat = a.toNat * b.toNat % 2 ^ 256 :=
  (mul_toNat_iff a b).mpr (rowsAgree_of_byte a.toNat small)

theorem mul_zero (a : Uint256) : mul a (.zero 32) = .zero 32 := by
  apply Uint256.toNat_inj
  rw [mul_toNat_of_byte a (by rw [Uint256.toNat_zero]; decide), Uint256.toNat_zero, Nat.mul_zero]
  rfl

theorem mul_one (a : Uint256) : mul a (toUint256 1) = a := by
  apply Uint256.toNat_inj
  have one : (toUint256 1).toNat = 1 := toUint256_toNat 1
  rw [mul_toNat_of_byte a (by rw [one]; decide), one, Nat.mul_one, Nat.mod_eq_of_lt a.toNat_lt]

/-- A square is exact as long as those before it have one byte. -/
theorem squared_toNat {turns : Nat} {base : Uint256}
    (small : ∀ turn < turns, base.toNat ^ 2 ^ turn < 256) :
    (squared mul turns base).toNat = base.toNat ^ 2 ^ turns := by
  induction turns generalizing base with
  | zero => rw [Nat.pow_zero, Nat.pow_one]; rfl
  | succ turns ih =>
      have first : base.toNat < 256 := by
        have here := small 0 (Nat.succ_pos turns)
        rwa [Nat.pow_zero, Nat.pow_one] at here
      have square : (mul base base).toNat = base.toNat ^ 2 := by
        rw [mul_toNat_of_byte base first, Nat.pow_two, Nat.mod_eq_of_lt]
        calc base.toNat * base.toNat < 256 * 256 := Nat.mul_lt_mul'' first first
          _ < 2 ^ 256 := by decide
      have later : ∀ turn < turns, (mul base base).toNat ^ 2 ^ turn < 256 := by
        intro turn below
        rw [square, ← pow_mul, ← Nat.pow_succ']
        exact small (turn + 1) (Nat.succ_lt_succ below)
      rw [squared_succ, ih later, square, ← pow_mul, ← Nat.pow_succ']

/-- A result is exact where the squares that are multiplied in have one byte. -/
theorem squareMultiply_toNat {turns exponent : Nat} {base : Uint256}
    (small : ∀ turn < turns, 2 ^ turn ≤ exponent → base.toNat ^ 2 ^ turn < 256) :
    (squareMultiply mul turns exponent (toUint256 1) base).toNat =
      base.toNat ^ (exponent % 2 ^ turns) % 2 ^ 256 := by
  have exactly (a b : Uint256) (byte : b.toNat < 256) :
      (mul a b).toNat ≡ a.toNat * b.toNat [MOD 2 ^ 256] := by
    rw [mul_toNat_of_byte a byte]
    exact Nat.mod_modEq _ _
  have used : ∀ turn < turns, 2 ^ turn ≤ exponent → (squared mul turn base).toNat < 256 := by
    intro turn below reaches
    rw [squared_toNat]
    · exact small turn below reaches
    · intro earlier before
      exact small earlier (before.trans below)
        ((Nat.pow_le_pow_right (by decide) before.le).trans reaches)
  have power := squareMultiply_modEq exactly used (toUint256 1)
  rwa [toUint256_toNat, show (1 : UInt64).toNat = 1 from rfl, Nat.one_mul, Nat.ModEq,
    Nat.mod_eq_of_lt (Uint256.toNat_lt _)] at power

def ExactPower (base exponent : Uint256) : Prop :=
  (exp base exponent).toNat = base.toNat ^ exponent.toNat % 2 ^ 256

/-- The square of the highest bit of the exponent has one byte. -/
def SquaresAreBytes (base exponent : Uint256) : Prop :=
  exponent.toNat = 0 ∨ base.toNat = 0 ∨ base.toNat ^ 2 ^ Nat.log2 exponent.toNat < 256

section Powers

variable {base exponent : Uint256}

theorem squares_small (nonzero : base.toNat ≠ 0)
    (top : base.toNat ^ 2 ^ Nat.log2 exponent.toNat < 256) {turn : Nat}
    (reaches : 2 ^ turn ≤ exponent.toNat) : base.toNat ^ 2 ^ turn < 256 := by
  have positive : exponent.toNat ≠ 0 := (Nat.two_pow_pos turn).trans_le reaches |>.ne'
  have below : 2 ^ turn ≤ 2 ^ Nat.log2 exponent.toNat :=
    Nat.pow_le_pow_right (by decide) ((Nat.le_log2 positive).mpr reaches)
  exact (Nat.pow_le_pow_right (Nat.pos_of_ne_zero nonzero) below).trans_lt top

/-- No square is zero before the last one that counts. -/
theorem zeroInTime_of_bytes (nonzero : base.toNat ≠ 0)
    (top : base.toNat ^ 2 ^ Nat.log2 exponent.toNat < 256) :
    ZeroInTime mul (.zero 32) 256 exponent.toNat (toUint256 1) base := by
  intro turn _ zero reaches
  have square : (squared mul (turn + 1) base).toNat = base.toNat ^ 2 ^ (turn + 1) := by
    apply squared_toNat
    intro earlier before
    exact squares_small nonzero top
      ((Nat.pow_le_pow_right (by decide) before.le).trans reaches)
  rw [zero, Uint256.toNat_zero] at square
  exact absurd square.symm (Nat.pow_pos (Nat.pos_of_ne_zero nonzero)).ne'

theorem SquaresAreBytes.exact (bytes : SquaresAreBytes base exponent) :
    ExactPower base exponent ∧ exp base exponent = fullExp mul base exponent := by
  rw [ExactPower, exp_eq]
  by_cases positive : exponent.toNat = 0
  · have one : expWith mul base exponent = toUint256 1 := if_pos (isZero_iff.mpr positive)
    have all : fullExp mul base exponent = toUint256 1 := by
      rw [fullExp, positive, squareMultiply_zero]
    rw [one, all, positive]
    exact ⟨toUint256_toNat 1, rfl⟩
  · by_cases nonzero : base.toNat = 0
    · have inTime : ExitsInTime mul base exponent := .inl nonzero
      have nothing : expWith mul base exponent = .zero 32 := by
        rw [expWith, if_neg (isZero_iff.not.mpr positive), if_pos (isZero_iff.mpr nonzero)]
      refine ⟨?_, (expWith_eq_iff mul_zero mul_one base exponent).mpr inTime⟩
      rw [nothing, Uint256.toNat_zero, nonzero, Nat.zero_pow (Nat.pos_of_ne_zero positive),
        Nat.zero_mod]
    · have top := (bytes.resolve_left positive).resolve_left nonzero
      have inTime : ExitsInTime mul base exponent := .inr (zeroInTime_of_bytes nonzero top)
      have all := (expWith_eq_iff mul_zero mul_one base exponent).mpr inTime
      have power : (fullExp mul base exponent).toNat =
          base.toNat ^ (exponent.toNat % 2 ^ 256) % 2 ^ 256 :=
        squareMultiply_toNat fun _ _ reaches => squares_small nonzero top reaches
      rw [Nat.mod_eq_of_lt exponent.toNat_lt] at power
      exact ⟨all ▸ power, all⟩

/-- A power that fits a word is only exact when no square that is multiplied in has two bytes. -/
theorem squaresAreBytes_of_exact (fits : base.toNat ^ exponent.toNat < 2 ^ 256)
    (exactly : ExactPower base exponent) : SquaresAreBytes base exponent := by
  by_contra other
  obtain ⟨positive, rest⟩ := not_or.mp other
  obtain ⟨nonzero, large⟩ := not_or.mp rest
  have one : (toUint256 1).toNat = 1 := toUint256_toNat 1
  rw [ExactPower, exp_eq, expWith, if_neg (isZero_iff.not.mpr positive),
    if_neg (isZero_iff.not.mpr nonzero), Nat.mod_eq_of_lt fits] at exactly
  have zeros (a : Uint256) (none_ : a.toNat = 0) : a = .zero 32 :=
    Uint256.toNat_inj (none_.trans Uint256.toNat_zero.symm)
  have power := squareMultiplyExits_exact zeros mul_le mul_lt (show 1 < 256 by decide)
    exponent.toNat_lt positive (by rw [one]; decide) (Nat.pos_of_ne_zero nonzero)
    (by rw [exactly, one, Nat.one_mul])
  exact large power

end Powers

/-- The first square of a base that has two bytes gives a power that is wrong. -/
theorem inexact_power {base : Uint256} (more : 2 ≤ base.toNat) :
    ∃ exponent, ¬ ExactPower base exponent := by
  have found : ∃ turn, 256 ≤ base.toNat ^ 2 ^ turn :=
    ⟨3, (show 256 = 2 ^ 2 ^ 3 by decide) ▸ Nat.pow_le_pow_left more _⟩
  have least := Nat.find_spec found
  have before (turn : Nat) (below : turn < Nat.find found) : base.toNat ^ 2 ^ turn < 256 :=
    Nat.not_le.mp (Nat.find_min found below)
  have most : Nat.find found ≤ 3 :=
    Nat.find_min' found ((show 256 = 2 ^ 2 ^ 3 by decide) ▸ Nat.pow_le_pow_left more _)
  generalize Nat.find found = turn at least before most
  have value : (toUint256 (UInt64.ofNat (2 ^ turn))).toNat = 2 ^ turn := by
    have small : 2 ^ turn < UInt64.size :=
      (Nat.pow_le_pow_right (by decide) most).trans_lt (show 2 ^ 3 < UInt64.size by decide)
    rw [toUint256_toNat, UInt64.toNat_ofNat_of_lt' small]
  have fits : base.toNat ^ 2 ^ turn < 2 ^ 256 := by
    cases turn with
    | zero => rw [Nat.pow_zero, Nat.pow_one]; exact base.toNat_lt
    | succ turn =>
        calc base.toNat ^ 2 ^ (turn + 1) = (base.toNat ^ 2 ^ turn) ^ 2 := by
              rw [Nat.pow_succ, pow_mul]
          _ < 256 ^ 2 := Nat.pow_lt_pow_left (before turn (Nat.lt_succ_self turn)) (by decide)
          _ < 2 ^ 256 := by decide
  refine ⟨toUint256 (UInt64.ofNat (2 ^ turn)), fun exactly => ?_⟩
  rcases squaresAreBytes_of_exact (by rwa [value]) exactly with zero | zero | small
  · rw [value] at zero
    exact absurd zero (Nat.two_pow_pos turn).ne'
  · exact absurd more (by rw [zero]; decide)
  · rw [value, Nat.log2_two_pow] at small
    exact Nat.not_lt.mpr least small

/-- Powers are exact where the squares have one byte, of those that fit a word no others are, and
no base but zero and one is exact with every exponent.  The exits change nothing exactly when no
square is zero too early, for the products of the machine and for any other multiplication that
zero absorbs and one leaves alone. -/
theorem exponentiation_exact (base exponent : Uint256) :
    (SquaresAreBytes base exponent →
        ExactPower base exponent ∧ exp base exponent = fullExp mul base exponent) ∧
      (base.toNat ^ exponent.toNat < 2 ^ 256 →
        (ExactPower base exponent ↔ SquaresAreBytes base exponent)) ∧
      ((∀ other, ExactPower base other) ↔ base.toNat ≤ 1) ∧
      (exp base exponent = fullExp mul base exponent ↔ ExitsInTime mul base exponent) ∧
      ∀ times : Uint256 → Uint256 → Uint256, (∀ a, times a (.zero 32) = .zero 32) →
        (∀ a, times a (toUint256 1) = a) →
        (expWith times base exponent = fullExp times base exponent ↔
          ExitsInTime times base exponent) := by
  refine ⟨fun bytes => bytes.exact, ?_, ?_, ?_, ?_⟩
  · intro fits
    exact ⟨squaresAreBytes_of_exact fits, fun bytes => bytes.exact.1⟩
  · constructor
    · intro exactly
      by_contra more
      obtain ⟨other, wrong⟩ := inexact_power (Nat.not_le.mp more)
      exact wrong (exactly other)
    · intro most other
      have bytes : SquaresAreBytes base other := by
        rcases Nat.le_one_iff_eq_zero_or_eq_one.mp most with zero | one
        · exact .inr (.inl zero)
        · exact .inr (.inr (by rw [one, Nat.one_pow]; decide))
      exact bytes.exact.1
  · rw [exp_eq]
    exact expWith_eq_iff mul_zero mul_one base exponent
  · intro times absorbs leaves
    exact expWith_eq_iff absorbs leaves base exponent

/-- A base of two bytes is not its own first power. -/
theorem two_bytes_to_the_first : ¬ ∀ base exponent, ExactPower base exponent := by
  intro claim
  have base : (toUint256 256).toNat = 256 := toUint256_toNat 256
  have exponent : (toUint256 1).toNat = 1 := toUint256_toNat 1
  have bytes := squaresAreBytes_of_exact (by rw [base, exponent]; decide)
    (claim (toUint256 256) (toUint256 1))
  rw [SquaresAreBytes, base, exponent] at bytes
  revert bytes
  decide

end Parthenon.Evm.VM
