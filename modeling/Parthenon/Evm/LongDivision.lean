import Parthenon.Evm.WordArithmetic

namespace Parthenon.Evm.VM

open Library

/-! # Long division

Division goes through the bits of the dividend, the first one first.  The remainder
stays below the divisor and below what has been brought down, so that the bit which
moving it to the left discards is always zero.
-/

theorem doubleByte_carries :
    Carries 256 (fun byte : UInt8 => 2 * digitOf byte) digitOf (fun carry : UInt16 => carry.toNat)
      (fun carry => carry.toNat ≤ 1) doubleByte := by
  have parts (byte : UInt8) (carry : UInt16) (small : carry.toNat ≤ 1) :
      (doubleByte byte carry).1.toNat = (2 * byte.toNat + carry.toNat) / 256 ∧
        (doubleByte byte carry).2.toNat = (2 * byte.toNat + carry.toNat) % 256 := by
    have byteSmall := byte.toNat_lt
    have shifted : ((byte.toUInt16 <<< 1) ||| carry).toNat = 2 * byte.toNat + carry.toNat := by
      rw [UInt16.toNat_or, UInt16.toNat_shiftLeft, UInt8.toNat_toUInt16,
        show (1 : UInt16).toNat % 16 = 1 from rfl, Nat.mod_eq_of_lt (by rw [Nat.shiftLeft_eq]; omega),
        ← Nat.shiftLeft_add_eq_or_of_lt (show carry.toNat < 2 ^ 1 by omega), Nat.shiftLeft_eq,
        Nat.mul_comm]
    rw [doubleByte, UInt16.toNat_shiftRight, UInt16.toNat_toUInt8, shifted, Nat.shiftRight_eq_div_pow]
    exact ⟨rfl, rfl⟩
  constructor
  · intro byte carry small
    have byteSmall := byte.toNat_lt
    rw [(parts byte carry small).1]
    omega
  · intro byte carry small
    obtain ⟨high, low⟩ := parts byte carry small
    rw [digitOf, digitOf, high, low]
    omega

theorem double_toNat (word : Uint256) (fits : 2 * word.toNat < 2 ^ 256) :
    ofLittleEndian (List.mapAccumr doubleByte word.bytes 0).2.reverse = 2 * word.toNat := by
  have starts : (0 : UInt16).toNat ≤ 1 := Nat.zero_le 1
  obtain ⟨_, balance⟩ := doubleByte_carries.mapAccumr word.bytes starts
  have below := ofLittleEndian_reverse_lt (List.mapAccumr doubleByte word.bytes 0).2
  rw [List.length_mapAccumr, word.length_eq] at below
  rw [placeValue_bytes, placeValue_scale, ← word.toNat_eq_placeValue, word.length_eq] at balance
  change _ = 2 * (word.toNat : Int) + 0 at balance
  omega

/-- A byte with no low bits takes a bit below those it has. -/
theorem or_bit_toNat {byte : UInt8} {place : Nat} (inside : place < 8)
    (clear : 2 ^ (place + 1) ∣ byte.toNat) :
    (byte ||| (1 <<< UInt8.ofNat place)).toNat = byte.toNat + 2 ^ place := by
  obtain ⟨high, isByte⟩ := clear
  have bit : ((1 : UInt8) <<< UInt8.ofNat place).toNat = 2 ^ place := by
    rw [UInt8.toNat_shiftLeft, UInt8.toNat_ofNat', show (1 : UInt8).toNat = 1 from rfl,
      Nat.mod_mod_of_dvd place (by decide), Nat.mod_eq_of_lt inside, Nat.one_shiftLeft]
    exact Nat.mod_eq_of_lt (Nat.pow_lt_pow_right (by decide) inside)
  rw [UInt8.toNat_or, bit, isByte, Nat.mul_comm, ← Nat.shiftLeft_eq,
    Nat.shiftLeft_add_eq_or_of_lt (Nat.pow_lt_pow_right (by decide) (Nat.lt_succ_self place))]

/-- Without a discarded bit the remainder is doubled and takes the next bit of the dividend. -/
theorem bringDown_toNat (a remainder : Uint256) {i : Nat} (inside : i < 256)
    (fits : 2 * remainder.toNat < 2 ^ 256) :
    (bringDown a remainder i).toNat = 2 * remainder.toNat + a.toNat / 2 ^ (255 - i) % 2 := by
  have doubled := double_toNat remainder fits
  rw [bringDown, bitAt_eq a inside, ← Nat.toNat_testBit]
  generalize shape : (⟨(List.mapAccumr doubleByte remainder.bytes 0).2, _⟩ : Uint256) = shifted
  have value : Uint256.toNat shifted = 2 * remainder.toNat := by
    rw [← shape]
    exact doubled
  cases a.toNat.testBit (255 - i) with
  | false => exact value
  | true =>
      have last := Uint256.get_toNat shifted (show 31 < 32 by decide)
      rw [Nat.sub_self, Nat.pow_zero, Nat.div_one, value] at last
      have even : 2 ^ (0 + 1) ∣ (shifted.get 31).toNat := by omega
      have taken : (shifted.get 31 ||| 1).toNat = (shifted.get 31).toNat + 1 :=
        or_bit_toNat (show 0 < 8 by decide) even
      have set := Uint256.set_toNat shifted (show 31 < 32 by decide) (shifted.get 31 ||| 1)
      rw [taken, Nat.sub_self, Nat.pow_zero, Nat.mul_one, Nat.mul_one, value] at set
      simp only [if_true, Bool.toNat_true]
      omega

/-- One turn of the loop: the next bit is brought down, and the divisor is taken off where
it fits. -/
def divisionStep (a b : Uint256) (quotient remainder : Uint256) (i : Nat) : Uint256 × Uint256 :=
  let remainder := bringDown a remainder i
  if !lt remainder b then
    (quotient.set (i / 8) (quotient.get (i / 8) ||| (1 <<< UInt8.ofNat (7 - i % 8))),
      sub remainder b)
  else (quotient, remainder)

theorem longDivision_eq (a b : Uint256) :
    longDivision a b =
      (List.range 256).foldl (fun state i => divisionStep a b state.1 state.2 i)
        (.zero 32, .zero 32) := rfl

/-- A quotient with no bits from a place on takes one there. -/
theorem set_bit_toNat (quotient : Uint256) {i : Nat} (inside : i < 256)
    (clear : 2 ^ (256 - i) ∣ quotient.toNat) :
    Uint256.toNat
        (quotient.set (i / 8) (quotient.get (i / 8) ||| (1 <<< UInt8.ofNat (7 - i % 8)))) =
      quotient.toNat + 2 ^ (255 - i) := by
  obtain ⟨high, isQuotient⟩ := clear
  have place : i / 8 < 32 := by omega
  have unit : (256 : Nat) ^ (31 - i / 8) = 2 ^ (8 * (31 - i / 8)) := by
    rw [show 256 = 2 ^ 8 from rfl, ← pow_mul]
  have digit := quotient.get_toNat place
  have low : 2 ^ (7 - i % 8 + 1) ∣ (quotient.get (i / 8)).toNat := by
    rw [digit, isQuotient, unit, show 256 - i = 8 * (31 - i / 8) + (7 - i % 8 + 1) by omega,
      pow_add 2 (8 * _), mul_assoc, Nat.mul_div_cancel_left _ (Nat.two_pow_pos _)]
    exact (Nat.dvd_mod_iff (Nat.pow_dvd_pow 2 (show 7 - i % 8 + 1 ≤ 8 by omega))).mpr
      (Nat.dvd_mul_right _ _)
  have set := quotient.set_toNat place (quotient.get (i / 8) ||| (1 <<< UInt8.ofNat (7 - i % 8)))
  rw [or_bit_toNat (by omega) low, Nat.add_mul, unit, ← pow_add,
    show 7 - i % 8 + 8 * (31 - i / 8) = 255 - i by omega] at set
  omega

/-- The loop after some turns: quotient and remainder of what has been brought down. -/
structure DivisionPassed (a b : Uint256) (turns : Nat) (state : Uint256 × Uint256) : Prop where
  quotient : state.1.toNat = a.toNat / 2 ^ (256 - turns) / b.toNat * 2 ^ (256 - turns)
  remainder : state.2.toNat = a.toNat / 2 ^ (256 - turns) % b.toNat

theorem sub_toNat_of_le {a b : Uint256} (enough : b.toNat ≤ a.toNat) :
    (sub a b).toNat = a.toNat - b.toNat := by
  have difference := sub_toNat a b
  have fits := a.toNat_lt
  omega

theorem DivisionPassed.step {a b : Uint256} {turn : Nat} {state : Uint256 × Uint256}
    (nonzero : 0 < b.toNat) (inside : turn < 256) (passed : DivisionPassed a b turn state) :
    DivisionPassed a b (turn + 1) (divisionStep a b state.1 state.2 turn) := by
  obtain ⟨quotient, remainder⟩ := passed
  have unit : 2 ^ (256 - turn) = 2 ^ (255 - turn) * 2 := by
    rw [← pow_succ, show 255 - turn + 1 = 256 - turn by omega]
  have before : a.toNat / 2 ^ (256 - turn) = a.toNat / 2 ^ (255 - turn) / 2 := by
    rw [unit, Nat.div_div_eq_div_mul]
  -- what has been brought down has at most as many bits as there were turns
  have short : 2 * state.2.toNat < 2 ^ 256 := by
    have below : a.toNat / 2 ^ (256 - turn) < 2 ^ turn := by
      apply Nat.div_lt_of_lt_mul
      rw [← pow_add, show 256 - turn + turn = 256 by omega]
      exact a.toNat_lt
    have most : 2 ^ turn ≤ 2 ^ 255 := Nat.pow_le_pow_right (by decide) (by omega)
    have less := Nat.mod_le (a.toNat / 2 ^ (256 - turn)) b.toNat
    omega
  have brought := bringDown_toNat a state.2 inside short
  have clear : 2 ^ (256 - turn) ∣ state.1.toNat := quotient ▸ Nat.dvd_mul_left _ _
  rw [remainder, before] at brought
  rw [before, unit] at quotient
  have bits := Nat.div_add_mod (a.toNat / 2 ^ (255 - turn)) 2
  have division := Nat.div_add_mod (a.toNat / 2 ^ (255 - turn) / 2) b.toNat
  have less := Nat.mod_lt (a.toNat / 2 ^ (255 - turn) / 2) nonzero
  have next : 256 - (turn + 1) = 255 - turn := by omega
  cases compared : lt (bringDown a state.2 turn) b with
  | true =>
      have below := lt_iff.mp compared
      have result := (Nat.div_mod_unique nonzero).mpr
        ⟨show (bringDown a state.2 turn).toNat +
            b.toNat * (2 * (a.toNat / 2 ^ (255 - turn) / 2 / b.toNat)) =
          a.toNat / 2 ^ (255 - turn) by rw [Nat.mul_left_comm]; omega, below⟩
      rw [divisionStep, compared]
      refine ⟨?_, ?_⟩
      · rw [next, result.1]
        exact quotient.trans (by ring)
      · rw [next, result.2]
        rfl
  | false =>
      have enough : b.toNat ≤ (bringDown a state.2 turn).toNat := by
        have above := lt_iff.not.mp (Bool.not_eq_true _ ▸ compared)
        omega
      have taken := sub_toNat_of_le enough
      have result := (Nat.div_mod_unique nonzero).mpr
        ⟨show (sub (bringDown a state.2 turn) b).toNat +
            b.toNat * (2 * (a.toNat / 2 ^ (255 - turn) / 2 / b.toNat) + 1) =
          a.toNat / 2 ^ (255 - turn) by rw [Nat.mul_add, Nat.mul_left_comm]; omega, by omega⟩
      rw [divisionStep, compared]
      refine ⟨?_, ?_⟩
      · rw [next, result.1]
        exact (set_bit_toNat state.1 inside clear).trans (quotient ▸ by ring)
      · rw [next, result.2]
        rfl

theorem longDivision_toNat (a b : Uint256) (nonzero : 0 < b.toNat) :
    (longDivision a b).1.toNat = a.toNat / b.toNat ∧
      (longDivision a b).2.toNat = a.toNat % b.toNat := by
  have nothing : a.toNat / 2 ^ 256 = 0 := Nat.div_eq_of_lt a.toNat_lt
  obtain ⟨quotient, remainder⟩ := foldl_range_invariant
    (fun state i => divisionStep a b state.1 state.2 i) (.zero 32, .zero 32) 256
    (DivisionPassed a b)
    ⟨by rw [Nat.sub_zero, nothing]; simp, by rw [Nat.sub_zero, nothing]; simp⟩
    fun turn state below passed => passed.step nonzero below
  rw [← longDivision_eq, Nat.sub_self, Nat.pow_zero, Nat.div_one] at quotient remainder
  rw [Nat.mul_one] at quotient
  exact ⟨quotient, remainder⟩

/-- Dividing is exact, with zero for a zero divisor. -/
theorem div_mod_euclidean (a b : Uint256) :
    (b.toNat = 0 → (div a b).toNat = 0 ∧ (mod a b).toNat = 0) ∧
      (b.toNat ≠ 0 → a.toNat = b.toNat * (div a b).toNat + (mod a b).toNat ∧
        (mod a b).toNat < b.toNat) := by
  constructor
  · intro zero
    have isZero := isZero_iff.mpr zero
    rw [div, mod, if_pos isZero, if_pos isZero]
    exact ⟨Uint256.toNat_zero, Uint256.toNat_zero⟩
  · intro nonzero
    have notZero := isZero_iff.not.mpr nonzero
    obtain ⟨quotient, remainder⟩ := longDivision_toNat a b (Nat.pos_of_ne_zero nonzero)
    rw [div, mod, if_neg notZero, if_neg notZero, quotient, remainder]
    exact ⟨(Nat.div_add_mod _ _).symm, Nat.mod_lt _ (Nat.pos_of_ne_zero nonzero)⟩

/-- The largest word, divided by the word with the top bit alone. -/
theorem div_mod_topBit :
    (not (.zero 32)).toNat =
        Uint256.toNat ((FixedBytes.zero 32).set 0 0x80) *
            (div (not (.zero 32)) ((FixedBytes.zero 32).set 0 0x80)).toNat +
          (mod (not (.zero 32)) ((FixedBytes.zero 32).set 0 0x80)).toNat ∧
      (mod (not (.zero 32)) ((FixedBytes.zero 32).set 0 0x80)).toNat <
        Uint256.toNat ((FixedBytes.zero 32).set 0 0x80) :=
  (div_mod_euclidean (not (.zero 32)) ((FixedBytes.zero 32).set 0 0x80)).2 (by decide)

end Parthenon.Evm.VM
