import Mathlib.Data.UInt
import Mathlib.Tactic.Linarith
import Parthenon.Evm.WordValues
import Parthenon.Library.Runs

namespace Parthenon.Evm.VM

open Library

/-! # Sums, differences and products of words

Adding and subtracting are exact modulo 2^256.  Multiplying is not: the row of a byte
of the multiplier is put down as far to the right as it should be to the left, so that
only the last byte of the multiplier counts for what it is worth.
-/

/-! ## Sums -/

/-- A pass over two words at once gives the sum of what it reads, less what is carried out. -/
theorem word_balance {σ : Type} (left right : UInt8 → Int) {carry : σ → Int} {valid : σ → Prop}
    (step : UInt8 → UInt8 → σ → σ × UInt8)
    (law : Carries 256 (fun pair : UInt8 × UInt8 => left pair.1 + right pair.2) digitOf carry valid
      (fun pair => step pair.1 pair.2))
    (a b : Uint256) (start : σ) (starts : valid start) :
    ∃ excess : Int,
      (ofLittleEndian (List.mapAccumr₂ step a.bytes b.bytes start).2.reverse : Nat) + 2 ^ 256 * excess =
        placeValue 256 left a.bytes + placeValue 256 right b.bytes + carry start := by
  have aligned := a.length_eq.trans b.length_eq.symm
  obtain ⟨_, balance⟩ := law.mapAccumr (a.bytes.zip b.bytes) starts
  rw [← mapAccumr₂_eq_zip, placeValue_bytes, placeValue_zip 256 left right aligned, List.length_zip,
    ← aligned, Nat.min_self, a.length_eq] at balance
  exact ⟨_, balance⟩

theorem addByte_carries :
    Carries 256 (fun pair : UInt8 × UInt8 => digitOf pair.1 + digitOf pair.2) digitOf
      (fun carry : UInt16 => carry.toNat) (fun carry => carry.toNat ≤ 1)
      (fun pair => addByte pair.1 pair.2) := by
  have parts (pair : UInt8 × UInt8) (carry : UInt16) (small : carry.toNat ≤ 1) :
      (addByte pair.1 pair.2 carry).1.toNat = (pair.1.toNat + pair.2.toNat + carry.toNat) / 256 ∧
        (addByte pair.1 pair.2 carry).2.toNat =
          (pair.1.toNat + pair.2.toNat + carry.toNat) % 256 := by
    have leftSmall := pair.1.toNat_lt
    have rightSmall := pair.2.toNat_lt
    have sum : (pair.1.toUInt16 + pair.2.toUInt16 + carry).toNat =
        pair.1.toNat + pair.2.toNat + carry.toNat := by
      rw [UInt16.toNat_add, UInt16.toNat_add, UInt8.toNat_toUInt16, UInt8.toNat_toUInt16]
      omega
    rw [addByte, UInt16.toNat_shiftRight, UInt16.toNat_toUInt8, sum, Nat.shiftRight_eq_div_pow]
    exact ⟨rfl, rfl⟩
  constructor
  · intro pair carry small
    have leftSmall := pair.1.toNat_lt
    have rightSmall := pair.2.toNat_lt
    rw [(parts pair carry small).1]
    omega
  · intro pair carry small
    obtain ⟨high, low⟩ := parts pair carry small
    rw [digitOf, digitOf, digitOf, high, low]
    omega

theorem add_toNat (a b : Uint256) : (add a b).toNat = (a.toNat + b.toNat) % 2 ^ 256 := by
  obtain ⟨excess, balance⟩ := word_balance digitOf digitOf addByte addByte_carries a b 0 (Nat.zero_le 1)
  rw [← a.toNat_eq_placeValue, ← b.toNat_eq_placeValue] at balance
  have small := (add a b).toNat_lt
  change ((add a b).toNat : Int) + 2 ^ 256 * excess = a.toNat + b.toNat + 0 at balance
  omega

/-! ## Differences -/

theorem subByte_carries :
    Carries 256 (fun pair : UInt8 × UInt8 => digitOf pair.1 + -1 * digitOf pair.2) digitOf
      (fun borrow : Int => -borrow) (fun borrow => borrow = 0 ∨ borrow = 1)
      (fun pair => subByte pair.1 pair.2) := by
  constructor
  · intro pair borrow _
    dsimp only [subByte]
    split
    · exact .inr rfl
    · exact .inl rfl
  · intro pair borrow bit
    have leftSmall := pair.1.toNat_lt
    have rightSmall := pair.2.toNat_lt
    dsimp only [subByte, digitOf]
    split
    · rename_i negative
      rw [UInt8.toNat_ofNat']
      omega
    · rename_i enough
      rw [UInt8.toNat_ofNat']
      omega

theorem sub_toNat (a b : Uint256) :
    ((sub a b).toNat : Int) = ((a.toNat : Int) - b.toNat) % 2 ^ 256 := by
  obtain ⟨excess, balance⟩ := word_balance digitOf (-1 * digitOf ·) subByte subByte_carries a b 0 (.inl rfl)
  rw [placeValue_scale, ← a.toNat_eq_placeValue, ← b.toNat_eq_placeValue] at balance
  have small := (sub a b).toNat_lt
  change ((sub a b).toNat : Int) + 2 ^ 256 * excess = a.toNat + -1 * b.toNat + -0 at balance
  omega

/-! ## Products -/

/-- One turn of the inner loop of `Mul`, for the byte of `a` at an index. -/
def mulStep (a : Uint256) (digit : UInt8) (i : Nat) (result : Uint256) (carry : UInt32) (j : Nat) :
    Uint256 × UInt32 :=
  let resultIdx := j + (31 - i)
  if resultIdx ≥ 32 then (result, carry)
  else
    let product := (a.get j).toUInt32 * digit.toUInt32 + (result.get resultIdx).toUInt32 + carry
    (result.set resultIdx product.toUInt8, (product >>> 8).toUInt16.toUInt32)

theorem downward_eq : downward = (List.range 32).map (31 - ·) := by decide

theorem mulRow_eq (a : Uint256) (digit : UInt8) (i : Nat) (result : Uint256) :
    mulRow a digit i result =
      ((List.range 32).foldl (fun state turn => mulStep a digit i state.1 state.2 (31 - turn))
        (result, 0)).1 := by
  rw [mulRow, downward_eq, List.foldl_map]
  rfl

/-- What a turn of the inner loop writes and carries is what it reads. -/
theorem mulStep_balance (a : Uint256) (digit : UInt8) {i j : Nat} (result : Uint256) {carry : UInt32}
    (inside : j + (31 - i) < 32) (small : carry.toNat < 256) :
    (mulStep a digit i result carry j).2.toNat < 256 ∧
      (mulStep a digit i result carry j).1.toNat +
          256 * 256 ^ (31 - (j + (31 - i))) * (mulStep a digit i result carry j).2.toNat =
        result.toNat +
          256 ^ (31 - (j + (31 - i))) * (carry.toNat + (a.get j).toNat * digit.toNat) := by
  have firstSmall := (a.get j).toNat_lt
  have digitSmall := digit.toNat_lt
  have oldSmall := (result.get (j + (31 - i))).toNat_lt
  have bound : (a.get j).toNat * digit.toNat ≤ 255 * 255 := Nat.mul_le_mul (by omega) (by omega)
  have product : ((a.get j).toUInt32 * digit.toUInt32 + (result.get (j + (31 - i))).toUInt32 +
      carry).toNat =
        (a.get j).toNat * digit.toNat + (result.get (j + (31 - i))).toNat + carry.toNat := by
    rw [UInt32.toNat_add, UInt32.toNat_add, UInt32.toNat_mul, UInt8.toNat_toUInt32,
      UInt8.toNat_toUInt32, UInt8.toNat_toUInt32]
    omega
  have written := result.set_toNat inside
    ((a.get j).toUInt32 * digit.toUInt32 + (result.get (j + (31 - i))).toUInt32 + carry).toUInt8
  rw [UInt32.toNat_toUInt8, product, show 2 ^ 8 = 256 from rfl] at written
  have carried : (((a.get j).toUInt32 * digit.toUInt32 +
      (result.get (j + (31 - i))).toUInt32 + carry) >>> 8).toUInt16.toUInt32.toNat =
        ((a.get j).toNat * digit.toNat + (result.get (j + (31 - i))).toNat + carry.toNat) / 256 := by
    rw [UInt16.toNat_toUInt32, UInt32.toNat_toUInt16, UInt32.toNat_shiftRight, product,
      Nat.shiftRight_eq_div_pow, Nat.mod_eq_of_lt]
    · rfl
    · change _ / 2 ^ 8 < _
      omega
  rw [mulStep, if_neg (Nat.not_le.mpr inside)]
  simp only [carried]
  refine ⟨by omega, ?_⟩
  have total := congrArg (256 ^ (31 - (j + (31 - i))) * ·) (Nat.div_add_mod
    ((a.get j).toNat * digit.toNat + (result.get (j + (31 - i))).toNat + carry.toNat) 256)
  linarith

/-- One digit more of a number, in front of the digits from a place on. -/
theorem low_digits_succ (value : Nat) {cut place : Nat} (front : cut ≤ place) :
    value % 256 ^ (place + 1) / 256 ^ cut =
      value % 256 ^ place / 256 ^ cut + 256 ^ (place - cut) * (value / 256 ^ place % 256) := by
  obtain ⟨further, rfl⟩ := Nat.exists_eq_add_of_le front
  rw [Nat.mod_pow_succ, Nat.add_sub_cancel_left, pow_add, mul_assoc,
    Nat.add_mul_div_left _ _ (Nat.pow_pos (by decide))]

/-- A row after some turns: the digits of `a` from its place on are added to the result, up
to what is carried, and the bytes in front are as they were. -/
structure RowPassed (a : Uint256) (digit : UInt8) (i : Nat) (result : Uint256) (turns : Nat)
    (state : Uint256 × UInt32) : Prop where
  small : state.2.toNat < 256
  front : state.1.bytes.take (31 - i) = result.bytes.take (31 - i)
  balance : state.1.toNat + 256 ^ (turns - (31 - i)) * state.2.toNat =
    result.toNat + digit.toNat * (a.toNat % 256 ^ turns / 256 ^ (31 - i))

theorem RowPassed.step {a : Uint256} {digit : UInt8} {i : Nat} {result : Uint256} {turn : Nat}
    {state : Uint256 × UInt32} (inside : turn < 32) (passed : RowPassed a digit i result turn state) :
    RowPassed a digit i result (turn + 1) (mulStep a digit i state.1 state.2 (31 - turn)) := by
  have balance := passed.balance
  by_cases outside : turn < 31 - i
  · have skipped : mulStep a digit i state.1 state.2 (31 - turn) = state := by
      rw [mulStep, if_pos (by omega)]
    have none_ (count : Nat) (few : count ≤ 31 - i) : a.toNat % 256 ^ count / 256 ^ (31 - i) = 0 :=
      Nat.div_eq_of_lt ((Nat.mod_lt _ (Nat.pow_pos (by decide))).trans_le
        (Nat.pow_le_pow_right (by decide) few))
    rw [none_ turn (by omega), show turn - (31 - i) = 0 by omega] at balance
    rw [skipped]
    refine ⟨passed.small, passed.front, ?_⟩
    rw [none_ (turn + 1) (by omega), show turn + 1 - (31 - i) = 0 by omega]
    exact balance
  · have here : 31 - turn + (31 - i) < 32 := by omega
    have place : 31 - (31 - turn + (31 - i)) = turn - (31 - i) := by omega
    obtain ⟨carried, turned⟩ := mulStep_balance a digit state.1 here passed.small
    rw [place, a.get_toNat (show 31 - turn < 32 by omega), show 31 - (31 - turn) = turn by omega]
      at turned
    refine ⟨carried, ?_, ?_⟩
    · rw [← passed.front, mulStep, if_neg (Nat.not_le.mpr here)]
      exact List.take_set_of_le (by omega)
    · rw [low_digits_succ _ (show 31 - i ≤ turn by omega),
        show turn + 1 - (31 - i) = turn - (31 - i) + 1 by omega, pow_succ']
      linarith

theorem mulRow_passed (a : Uint256) (digit : UInt8) (i : Nat) (result : Uint256) :
    ∃ carry, RowPassed a digit i result 32 (mulRow a digit i result, carry) := by
  have passed := foldl_range_invariant
    (fun state turn => mulStep a digit i state.1 state.2 (31 - turn)) (result, (0 : UInt32)) 32
    (RowPassed a digit i result) ⟨Nat.zero_lt_succ 255, rfl, by simp [Nat.mod_one]⟩
    fun turn state below passed => passed.step below
  rw [mulRow_eq]
  exact ⟨_, passed⟩

/-- A row puts the digits of `a` from a place on under the last digits of the result, and
nothing is carried into the bytes in front of them. -/
theorem mulRow_toNat (a : Uint256) (digit : UInt8) {i : Nat} (inside : i < 32) (result : Uint256) :
    (mulRow a digit i result).toNat % 256 ^ (i + 1) =
        (result.toNat + digit.toNat * (a.toNat / 256 ^ (31 - i))) % 256 ^ (i + 1) ∧
      (mulRow a digit i result).toNat / 256 ^ (i + 1) = result.toNat / 256 ^ (i + 1) ∧
      (mulRow a digit i result).toNat ≤ result.toNat + digit.toNat * (a.toNat / 256 ^ (31 - i)) := by
  have width : 32 - (31 - i) = i + 1 := by omega
  have whole : a.toNat % 256 ^ 32 = a.toNat := Nat.mod_eq_of_lt a.toNat_lt
  obtain ⟨carry, _, front, balance⟩ := mulRow_passed a digit i result
  rw [whole, width] at balance
  refine ⟨?_, ?_, ?_⟩
  · rw [← balance, Nat.add_mul_mod_self_left]
  · have leading := congrArg (fun bytes : Bytes => ofLittleEndian bytes.reverse) front
    simp only [Uint256.take_toNat, width] at leading
    exact leading
  · rw [← balance]
    exact Nat.le_add_right _ _

/-- What the rows of the last bytes of `b` come to when each is moved to the right. -/
def crossSum (a b : Nat) (rows : Nat) : Nat :=
  ((List.range rows).map fun row => b / 256 ^ row % 256 * (a / 256 ^ row)).sum

theorem crossSum_succ (a b rows : Nat) :
    crossSum a b (rows + 1) = crossSum a b rows + b / 256 ^ rows % 256 * (a / 256 ^ rows) := by
  rw [crossSum, List.range_succ, List.map_append, List.sum_append, List.map_singleton,
    List.sum_singleton, crossSum]

/-- The row of a byte of `b`, which is left out for a zero. -/
def mulByte (a b result : Uint256) (i : Nat) : Uint256 :=
  if b.get i = 0 then result else mulRow a (b.get i) i result

theorem mulByte_toNat (a b result : Uint256) {row : Nat} (inside : row < 32) :
    (mulByte a b result (31 - row)).toNat % 256 ^ (32 - row) =
        (result.toNat + b.toNat / 256 ^ row % 256 * (a.toNat / 256 ^ row)) % 256 ^ (32 - row) ∧
      (mulByte a b result (31 - row)).toNat / 256 ^ (32 - row) =
        result.toNat / 256 ^ (32 - row) ∧
      (mulByte a b result (31 - row)).toNat ≤
        result.toNat + b.toNat / 256 ^ row % 256 * (a.toNat / 256 ^ row) := by
  have digit := b.get_toNat (show 31 - row < 32 by omega)
  rw [show 31 - (31 - row) = row by omega] at digit
  rw [← digit, mulByte]
  split
  · rename_i zero
    rw [zero]
    simp
  · have added := mulRow_toNat a (b.get (31 - row)) (show 31 - row < 32 by omega) result
    rwa [show 31 - (31 - row) = row by omega, show 31 - row + 1 = 32 - row by omega] at added

/-- The product after some rows: each byte is that of the rows that reach it, and nothing is
more than the rows come to. -/
structure RowsPassed (a b : Uint256) (rows : Nat) (result : Uint256) : Prop where
  digits : ∀ place < 32, result.toNat / 256 ^ place % 256 =
    crossSum a.toNat b.toNat (min rows (32 - place)) / 256 ^ place % 256
  most : result.toNat ≤ crossSum a.toNat b.toNat rows

theorem RowsPassed.step {a b : Uint256} {row : Nat} {result : Uint256} (inside : row < 32)
    (passed : RowsPassed a b row result) :
    RowsPassed a b (row + 1) (mulByte a b result (31 - row)) := by
  obtain ⟨low, high, most⟩ := mulByte_toNat a b result inside
  refine ⟨?_, ?_⟩
  · intro place within
    by_cases touched : place < 32 - row
    · -- every row so far reaches the bytes that this one reaches
      have before : result.toNat % 256 ^ (32 - row) =
          crossSum a.toNat b.toNat row % 256 ^ (32 - row) := by
        apply mod_pow_eq_of_digits
        intro place behind
        rw [passed.digits place (by omega), Nat.min_eq_left (by omega)]
      rw [Nat.add_mod, before, ← Nat.add_mod, ← crossSum_succ] at low
      rw [Nat.min_eq_left (show row + 1 ≤ 32 - place by omega)]
      exact digit_of_low low touched
    · rw [digit_of_high high (Nat.not_lt.mp touched), passed.digits place within,
        Nat.min_eq_right (by omega), Nat.min_eq_right (by omega)]
  · rw [crossSum_succ]
    exact most.trans (Nat.add_le_add_right passed.most _)

theorem mul_passed (a b : Uint256) : RowsPassed a b 32 (mul a b) := by
  rw [mul, downward_eq, List.foldl_map]
  exact foldl_range_invariant (fun result row => mulByte a b result (31 - row)) (.zero 32) 32
    (RowsPassed a b)
    ⟨fun place _ => by rw [Uint256.toNat_zero, Nat.zero_min]; rfl,
      by rw [Uint256.toNat_zero]; exact Nat.zero_le _⟩
    fun row result below passed => passed.step below

/-- A byte of the product is that of the rows that reach it. -/
theorem mul_digit (a b : Uint256) {place : Nat} (inside : place < 32) :
    (mul a b).toNat / 256 ^ place % 256 =
      crossSum a.toNat b.toNat (32 - place) / 256 ^ place % 256 := by
  rw [(mul_passed a b).digits place inside, Nat.min_eq_right (Nat.sub_le 32 place)]

/-- The rows moved to the right give, byte for byte, what the rows moved to the left give. -/
def RowsAgree (a b : Nat) : Prop :=
  ∀ place < 32, crossSum a b (32 - place) / 256 ^ place % 256 = a * b / 256 ^ place % 256

theorem mul_toNat_iff (a b : Uint256) :
    (mul a b).toNat = a.toNat * b.toNat % 2 ^ 256 ↔ RowsAgree a.toNat b.toNat := by
  have fits : (mul a b).toNat < 256 ^ 32 := (mul a b).toNat_lt
  constructor
  · intro exactly place inside
    rw [← mul_digit a b inside, exactly]
    exact digit_of_low (Nat.mod_mod (a.toNat * b.toNat) (256 ^ 32)) inside
  · intro agree
    have digits : (mul a b).toNat % 256 ^ 32 = a.toNat * b.toNat % 256 ^ 32 := by
      apply mod_pow_eq_of_digits
      intro place inside
      rw [mul_digit a b inside, agree place inside]
    rwa [Nat.mod_eq_of_lt fits] at digits

/-- The last byte of the multiplier is put where it belongs. -/
theorem crossSum_of_byte (a : Nat) {b : Nat} (small : b < 256) (rows : Nat) :
    crossSum a b (rows + 1) = a * b := by
  induction rows with
  | zero =>
      rw [crossSum_succ, Nat.pow_zero, Nat.div_one, Nat.div_one, Nat.mod_eq_of_lt small,
        Nat.mul_comm b]
      exact Nat.zero_add _
  | succ rows ih =>
      have none_ : b / 256 ^ (rows + 1) = 0 :=
        Nat.div_eq_of_lt (small.trans_le (Nat.le_self_pow (Nat.succ_ne_zero rows) 256))
      rw [crossSum_succ, ih, none_, Nat.zero_mod, Nat.zero_mul, Nat.add_zero]

theorem rowsAgree_of_byte (a : Nat) {b : Nat} (small : b < 256) : RowsAgree a b := by
  intro place inside
  rw [show 32 - place = 31 - place + 1 by omega, crossSum_of_byte a small]

/-- A row that is moved to the right comes to less than one that is moved to the left. -/
theorem crossSum_lt {a b : Nat} (nonzero : 0 < a) (rows : Nat) :
    crossSum a b (rows + 1) ≤ a * (b % 256 ^ (rows + 1)) ∧
      (256 ≤ b % 256 ^ (rows + 1) → crossSum a b (rows + 1) < a * (b % 256 ^ (rows + 1))) := by
  induction rows with
  | zero =>
      have small := Nat.mod_lt b (show 0 < 256 by decide)
      have value : crossSum a b (0 + 1) = a * (b % 256 ^ (0 + 1)) := by
        rw [crossSum_succ, Nat.pow_zero, Nat.div_one, Nat.div_one, Nat.mul_comm (b % 256)]
        exact Nat.zero_add _
      exact ⟨value.le, fun large => absurd large (Nat.not_le.mpr small)⟩
  | succ rows ih =>
      rw [crossSum_succ, Nat.mod_pow_succ]
      rcases Nat.eq_zero_or_pos (b / 256 ^ (rows + 1) % 256) with zero | positive
      · rw [zero, Nat.zero_mul, Nat.add_zero, Nat.mul_zero, Nat.add_zero]
        exact ih
      · have moved : b / 256 ^ (rows + 1) % 256 * (a / 256 ^ (rows + 1)) ≤
            a * (b / 256 ^ (rows + 1) % 256) := by
          rw [Nat.mul_comm]
          exact Nat.mul_le_mul_right _ (Nat.div_le_self _ _)
        have shifted : a * (b / 256 ^ (rows + 1) % 256) <
            a * (256 ^ (rows + 1) * (b / 256 ^ (rows + 1) % 256)) := by
          apply Nat.mul_lt_mul_of_pos_left _ nonzero
          exact lt_mul_of_one_lt_left positive
            (Nat.one_lt_pow (Nat.succ_ne_zero rows) (by decide))
        have less : crossSum a b (rows + 1) +
            b / 256 ^ (rows + 1) % 256 * (a / 256 ^ (rows + 1)) <
              a * (b % 256 ^ (rows + 1) + 256 ^ (rows + 1) * (b / 256 ^ (rows + 1) % 256)) := by
          rw [Nat.mul_add]
          exact Nat.add_lt_add_of_le_of_lt ih.1 (moved.trans_lt shifted)
        exact ⟨less.le, fun _ => less⟩

/-- A product of which two bytes of the multiplier count is too small. -/
theorem mul_lt (a b : Uint256) (nonzero : 0 < a.toNat) (large : 256 ≤ b.toNat) :
    (mul a b).toNat < a.toNat * b.toNat := by
  have whole : b.toNat % 256 ^ (31 + 1) = b.toNat := Nat.mod_eq_of_lt b.toNat_lt
  have less := (crossSum_lt nonzero 31).2 (whole.symm ▸ large)
  rw [whole] at less
  exact (mul_passed a b).most.trans_lt less

theorem crossSum_zero (b rows : Nat) : crossSum 0 b rows = 0 := by
  induction rows with
  | zero => rfl
  | succ rows ih => rw [crossSum_succ, ih, Nat.zero_div, Nat.mul_zero]

theorem mul_le (a b : Uint256) : (mul a b).toNat ≤ a.toNat * b.toNat := by
  rcases Nat.eq_zero_or_pos a.toNat with zero | nonzero
  · have sum := (mul_passed a b).most
    rw [zero, crossSum_zero] at sum
    exact sum.trans (Nat.zero_le _)
  · rcases Nat.lt_or_ge b.toNat 256 with small | large
    · rw [(mul_toNat_iff a b).mpr (rowsAgree_of_byte a.toNat small)]
      exact Nat.mod_le _ _
    · exact (mul_lt a b nonzero large).le

/-- The operations of the machine are those of the numbers modulo 2^256. -/
structure ExactArithmetic (a b : Uint256) : Prop where
  add : (add a b).toNat = (a.toNat + b.toNat) % 2 ^ 256
  sub : ((sub a b).toNat : Int) = ((a.toNat : Int) - b.toNat) % 2 ^ 256
  mul : (mul a b).toNat = a.toNat * b.toNat % 2 ^ 256

theorem exactArithmetic_iff (a b : Uint256) :
    ExactArithmetic a b ↔ RowsAgree a.toNat b.toNat := by
  rw [← mul_toNat_iff]
  exact ⟨fun exactly => exactly.mul, fun product => ⟨add_toNat a b, sub_toNat a b, product⟩⟩

/-- A product that fits a word is exact for a multiplier of one byte. -/
theorem exactArithmetic_of_fits {a b : Uint256} (fits : a.toNat * b.toNat < 2 ^ 256) :
    ExactArithmetic a b ↔ a.toNat = 0 ∨ b.toNat < 256 := by
  constructor
  · intro exactly
    have product := exactly.mul
    rw [Nat.mod_eq_of_lt fits] at product
    by_contra other
    obtain ⟨nonzero, large⟩ := not_or.mp other
    exact absurd product (mul_lt a b (Nat.pos_of_ne_zero nonzero) (Nat.not_lt.mp large)).ne
  · intro either
    rw [exactArithmetic_iff]
    rcases either with zero | small
    · intro place _
      rw [zero, Nat.zero_mul, crossSum_zero]
    · exact rowsAgree_of_byte a.toNat small

/-- The arithmetic is exact where the rows of the product agree.  Where the product fits a word
they only do for a multiplier of one byte or the operand zero, and no other multiplier is exact
with every first operand. -/
theorem word_arithmetic_exact_iff (a b : Uint256) :
    (ExactArithmetic a b ↔ RowsAgree a.toNat b.toNat) ∧
      (a.toNat * b.toNat < 2 ^ 256 → (ExactArithmetic a b ↔ a.toNat = 0 ∨ b.toNat < 256)) ∧
      ((∀ other, ExactArithmetic other b) ↔ b.toNat < 256) := by
  refine ⟨exactArithmetic_iff a b, exactArithmetic_of_fits, ?_⟩
  constructor
  · intro exactly
    have one : (toUint256 1).toNat = 1 := toUint256_toNat 1
    have fits : (toUint256 1).toNat * b.toNat < 2 ^ 256 := by
      rw [one, Nat.one_mul]
      exact b.toNat_lt
    have chosen := (exactArithmetic_of_fits fits).mp (exactly (toUint256 1))
    exact chosen.resolve_left (by rw [one]; decide)
  · intro small other
    exact (exactArithmetic_iff other b).mpr (rowsAgree_of_byte other.toNat small)

/-- One times 256 is less than 256. -/
theorem one_mul_two_bytes : ¬ ∀ a b : Uint256, ExactArithmetic a b := by
  intro claim
  have product := (claim (toUint256 1) (toUint256 256)).mul
  have less := mul_lt (toUint256 1) (toUint256 256) (by rw [toUint256_toNat]; decide)
    (by rw [toUint256_toNat]; decide)
  rw [product, toUint256_toNat, toUint256_toNat] at less
  revert less
  decide

end Parthenon.Evm.VM
