import Parthenon.Evm.WordArithmetic

namespace Parthenon.Evm.VM

open Library

/-! # Shifts

A shift moves whole bytes first and then bits, with a carry from byte to byte.  It
is a product or a quotient by a power of two, but for the shift word only its low
64 bits count.
-/

section Bits

variable {place : Nat} (positive : 0 < place) (inside : place < 8)

include inside in
theorem place_toNat : (UInt8.ofNat place).toNat = place := by
  rw [UInt8.toNat_ofNat']
  exact Nat.mod_eq_of_lt (inside.trans (by decide))

include inside in
theorem byte_parts : 256 = 2 ^ place * 2 ^ (8 - place) := by
  rw [← pow_add, Nat.add_sub_cancel' inside.le]
  rfl

include positive inside in
theorem complement_toNat : (8 - UInt8.ofNat place).toNat % 8 = 8 - place := by
  have least : UInt8.ofNat place ≤ 8 := by
    rw [UInt8.le_iff_toNat_le, place_toNat inside]
    exact inside.le
  rw [UInt8.toNat_sub_of_le _ _ least, place_toNat inside]
  exact Nat.mod_eq_of_lt (Nat.sub_lt (by decide) positive)

include positive inside in
theorem shlBits_toNat (byte : UInt8) {carry : UInt8} (small : carry.toNat < 2 ^ place) :
    (shlBits (UInt8.ofNat place) byte carry).1.toNat = 2 ^ place * byte.toNat / 256 ∧
      (shlBits (UInt8.ofNat place) byte carry).2.toNat =
        2 ^ place * byte.toNat % 256 + carry.toNat := by
  have power := byte_parts inside
  constructor
  · rw [shlBits, UInt8.toNat_shiftRight, complement_toNat positive inside,
      Nat.shiftRight_eq_div_pow, power, Nat.mul_div_mul_left _ _ (Nat.two_pow_pos place)]
  · have low : 2 ^ place * byte.toNat % 256 = 2 ^ place * (byte.toNat % 2 ^ (8 - place)) := by
      rw [power, Nat.mul_mod_mul_left]
    rw [shlBits, UInt8.toNat_or, UInt8.toNat_shiftLeft, place_toNat inside, Nat.mod_eq_of_lt inside,
      Nat.shiftLeft_eq, Nat.mul_comm, show 2 ^ 8 = 256 from rfl, low, Nat.mul_comm,
      ← Nat.shiftLeft_eq, Nat.shiftLeft_add_eq_or_of_lt small]

include positive inside in
theorem shlBits_carries :
    Carries 256 (fun byte : UInt8 => 2 ^ place * digitOf byte) digitOf
      (fun carry : UInt8 => carry.toNat) (fun carry => carry.toNat < 2 ^ place)
      (shlBits (UInt8.ofNat place)) := by
  constructor
  · intro byte carry small
    rw [(shlBits_toNat positive inside byte small).1, Nat.div_lt_iff_lt_mul (by decide)]
    exact Nat.mul_lt_mul_of_pos_left byte.toNat_lt (Nat.two_pow_pos place)
  · intro byte carry small
    obtain ⟨high, low⟩ := shlBits_toNat positive inside byte small
    have parts := Nat.mod_add_div (2 ^ place * byte.toNat) 256
    rw [digitOf, digitOf, high, low]
    zify at parts ⊢
    linear_combination parts

include positive inside in
theorem shrBits_toNat (byte : UInt8) {carry : UInt8} (high : 2 ^ (8 - place) ∣ carry.toNat) :
    (shrBits (UInt8.ofNat place) byte carry).1.toNat = byte.toNat % 2 ^ place * 2 ^ (8 - place) ∧
      (shrBits (UInt8.ofNat place) byte carry).2.toNat =
        byte.toNat / 2 ^ place + carry.toNat := by
  have power := byte_parts inside
  constructor
  · rw [shrBits, UInt8.toNat_shiftLeft, complement_toNat positive inside, Nat.shiftLeft_eq,
      show 2 ^ 8 = 256 from rfl, power, Nat.mul_mod_mul_right]
  · obtain ⟨remainder, isCarry⟩ := high
    have low : byte.toNat / 2 ^ place < 2 ^ (8 - place) := by
      rw [Nat.div_lt_iff_lt_mul (Nat.two_pow_pos place), Nat.mul_comm, ← power]
      exact byte.toNat_lt
    rw [shrBits, UInt8.toNat_or, UInt8.toNat_shiftRight, place_toNat inside, Nat.mod_eq_of_lt inside,
      Nat.shiftRight_eq_div_pow, isCarry, Nat.mul_comm, ← Nat.shiftLeft_eq, Nat.or_comm,
      ← Nat.shiftLeft_add_eq_or_of_lt low, Nat.add_comm]

include positive inside in
theorem shrBits_divides :
    Divides 256 (2 ^ place) digitOf digitOf
      (fun carry : UInt8 => ((carry.toNat / 2 ^ (8 - place) : Nat) : Int))
      (fun carry => 2 ^ (8 - place) ∣ carry.toNat) (shrBits (UInt8.ofNat place)) := by
  have power := byte_parts inside
  constructor
  · intro byte carry high
    rw [(shrBits_toNat positive inside byte high).1]
    exact Nat.dvd_mul_left _ _
  · intro byte carry high
    obtain ⟨next, output⟩ := shrBits_toNat positive inside byte high
    obtain ⟨remainder, isCarry⟩ := high
    have parts := Nat.mod_add_div byte.toNat (2 ^ place)
    rw [digitOf, digitOf, next, output, isCarry, Nat.mul_div_cancel _ (Nat.two_pow_pos _),
      Nat.mul_div_cancel_left _ (Nat.two_pow_pos _)]
    zify at parts power ⊢
    linear_combination parts - remainder * power

end Bits

/-- The bits that a shift amount leaves to its bytes. -/
theorem amount_parts (amount : Nat) : 2 ^ amount = 256 ^ (amount / 8) * 2 ^ (amount % 8) := by
  rw [show 256 = 2 ^ 8 from rfl, ← pow_mul, ← pow_add, Nat.div_add_mod]

theorem movedLeft_toNat (value : Uint256) {count : Nat} (inside : count ≤ 32) :
    ofLittleEndian (value.bytes.drop count ++ List.replicate count 0).reverse =
      value.toNat * 256 ^ count % 2 ^ 256 := by
  have whole : 2 ^ 256 = 256 ^ (32 - count) * 256 ^ count := by
    rw [← pow_add, Nat.sub_add_cancel inside]
    rfl
  rw [ofLittleEndian_reverse_append, List.reverse_replicate, ofLittleEndian_zeros,
    List.length_replicate, value.drop_toNat, Nat.add_zero, whole, Nat.mul_mod_mul_right]

theorem movedRight_toNat (value : Uint256) (count : Nat) :
    ofLittleEndian (List.replicate count 0 ++ value.bytes.take (32 - count)).reverse =
      value.toNat / 256 ^ (32 - (32 - count)) := by
  rw [ofLittleEndian_reverse_append, List.reverse_replicate, ofLittleEndian_zeros, Nat.zero_mul,
    Nat.zero_add, value.take_toNat]

theorem shlBits_value {place : Nat} (inside : place < 8) (bytes : Bytes) :
    ofLittleEndian (if UInt8.ofNat place > 0 then
      (List.mapAccumr (shlBits (UInt8.ofNat place)) bytes 0).2 else bytes).reverse =
      2 ^ place * ofLittleEndian bytes.reverse % 256 ^ bytes.length := by
  rcases Nat.eq_zero_or_pos place with none_ | positive
  · rw [none_, if_neg (by decide), Nat.pow_zero, Nat.one_mul,
      Nat.mod_eq_of_lt (ofLittleEndian_reverse_lt bytes)]
  · have starts : (0 : UInt8).toNat < 2 ^ place := Nat.two_pow_pos place
    obtain ⟨_, balance⟩ := (shlBits_carries positive inside).mapAccumr bytes starts
    have below := ofLittleEndian_reverse_lt (List.mapAccumr (shlBits (UInt8.ofNat place)) bytes 0).2
    rw [if_pos (by rw [gt_iff_lt, UInt8.lt_iff_toNat_lt, place_toNat inside]; exact positive)]
    rw [List.length_mapAccumr] at below
    rw [placeValue_bytes, placeValue_scale, placeValue_bytes] at balance
    generalize List.mapAccumr (shlBits (UInt8.ofNat place)) bytes 0 = pass at balance below ⊢
    have whole : 2 ^ place * ofLittleEndian bytes.reverse =
        ofLittleEndian pass.2.reverse + 256 ^ bytes.length * pass.1.toNat := by
      zify
      exact balance.symm
    rw [whole, Nat.add_mul_mod_self_left, Nat.mod_eq_of_lt below]

theorem shrBits_value {place : Nat} (inside : place < 8) (bytes : Bytes) :
    ofLittleEndian (if UInt8.ofNat place > 0 then
      (List.mapAccumr (shrBits (UInt8.ofNat place)) bytes.reverse 0).2.reverse else bytes).reverse =
      ofLittleEndian bytes.reverse / 2 ^ place := by
  rcases Nat.eq_zero_or_pos place with none_ | positive
  · rw [none_, if_neg (by decide), Nat.pow_zero, Nat.div_one]
  · have starts : 2 ^ (8 - place) ∣ (0 : UInt8).toNat := Nat.dvd_zero _
    obtain ⟨_, balance⟩ := (shrBits_divides positive inside).mapAccumr bytes starts
    rw [if_pos (by rw [gt_iff_lt, UInt8.lt_iff_toNat_lt, place_toNat inside]; exact positive)]
    rw [placeValue_bytes, placeValue_bytes] at balance
    generalize List.mapAccumr (shrBits (UInt8.ofNat place)) bytes.reverse 0 = pass at balance ⊢
    have small : pass.1.toNat / 2 ^ (8 - place) < 2 ^ place := by
      rw [Nat.div_lt_iff_lt_mul (Nat.two_pow_pos _), ← byte_parts inside]
      exact pass.1.toNat_lt
    have whole : ofLittleEndian bytes.reverse =
        pass.1.toNat / 2 ^ (8 - place) + 2 ^ place * ofLittleEndian pass.2.reverse.reverse := by
      rw [show (0 : UInt8).toNat / 2 ^ (8 - place) = 0 from Nat.zero_div _] at balance
      generalize pass.1.toNat / 2 ^ (8 - place) = remainder at balance ⊢
      zify
      linear_combination -balance
    rw [whole, Nat.add_mul_div_left _ _ (Nat.two_pow_pos place), Nat.div_eq_of_lt small, Nat.zero_add]

theorem shl_toNat (shift value : Uint256) :
    (shl shift value).toNat = value.toNat * 2 ^ (shift.toNat % 2 ^ 64) % 2 ^ 256 := by
  rw [← toUint64_toNat]
  by_cases far : toUint64 shift ≥ 256
  · have past : 2 ^ 256 ∣ 2 ^ (toUint64 shift).toNat :=
      Nat.pow_dvd_pow 2 (UInt64.le_iff_toNat_le.mp far)
    rw [shl, if_pos far, Uint256.toNat_zero, Nat.mod_eq_zero_of_dvd (past.mul_left value.toNat)]
  · have near_ : (toUint64 shift).toNat < 256 := by
      rw [ge_iff_le, UInt64.le_iff_toNat_le] at far
      exact Nat.not_le.mp far
    have count : (toUint64 shift).toNat / 8 ≤ 32 := by omega
    have moved := movedLeft_toNat value count
    have width : (value.bytes.drop ((toUint64 shift).toNat / 8) ++
        List.replicate ((toUint64 shift).toNat / 8) 0).length = 32 := by
      rw [List.length_append, List.length_drop, List.length_replicate, value.length_eq]
      omega
    rw [shl, if_neg far, Uint256.toNat]
    simp only [Nat.min_eq_left count, shlBits_value (Nat.mod_lt _ (by decide)), moved, width]
    rw [show 256 ^ 32 = 2 ^ 256 by rfl, Nat.mul_mod_mod, amount_parts (toUint64 shift).toNat]
    congr 1
    ring

theorem shr_toNat (shift value : Uint256) :
    (shr shift value).toNat = value.toNat / 2 ^ (shift.toNat % 2 ^ 64) := by
  rw [← toUint64_toNat]
  by_cases far : toUint64 shift ≥ 256
  · have past : 2 ^ 256 ≤ 2 ^ (toUint64 shift).toNat :=
      Nat.pow_le_pow_right (by decide) (UInt64.le_iff_toNat_le.mp far)
    rw [shr, if_pos far, Uint256.toNat_zero, Nat.div_eq_of_lt (value.toNat_lt.trans_le past)]
  · have near_ : (toUint64 shift).toNat < 256 := by
      rw [ge_iff_le, UInt64.le_iff_toNat_le] at far
      exact Nat.not_le.mp far
    have count : (toUint64 shift).toNat / 8 ≤ 32 := by omega
    rw [shr, if_neg far, Uint256.toNat]
    simp only [Nat.min_eq_left count, shrBits_value (Nat.mod_lt _ (by decide)), movedRight_toNat,
      Nat.sub_sub_self count]
    rw [Nat.div_div_eq_div_mul, ← amount_parts]

theorem pow_dvd_mul_pow {value bits amount : Nat} :
    2 ^ bits ∣ value * 2 ^ amount ↔ 2 ^ (bits - amount) ∣ value := by
  rcases Nat.le_total amount bits with within | past
  · rw [← Nat.sub_add_cancel within, pow_add, Nat.add_sub_cancel,
      Nat.mul_dvd_mul_iff_right (Nat.two_pow_pos amount)]
  · rw [Nat.sub_eq_zero_of_le past, Nat.pow_zero]
    exact iff_of_true ((Nat.pow_dvd_pow 2 past).mul_left value) (Nat.one_dvd value)

structure ExactShifts (shift value : Uint256) : Prop where
  shl : (shl shift value).toNat = value.toNat * 2 ^ shift.toNat % 2 ^ 256
  shr : (shr shift value).toNat = value.toNat / 2 ^ shift.toNat

/-- Shifts are exact for shift words of 64 bits, and for others where no bit of the value stays
in the word under the amount that their low 64 bits name. -/
theorem shifts_exact_iff (shift value : Uint256) :
    ExactShifts shift value ↔
      shift.toNat < 2 ^ 64 ∨
        value.toNat < 2 ^ (shift.toNat % 2 ^ 64) ∧
          2 ^ (256 - shift.toNat % 2 ^ 64) ∣ value.toNat := by
  by_cases named : shift.toNat < 2 ^ 64
  · refine iff_of_true ⟨?_, ?_⟩ (.inl named)
    · rw [shl_toNat, Nat.mod_eq_of_lt named]
    · rw [shr_toNat, Nat.mod_eq_of_lt named]
  · have most : 256 ≤ shift.toNat := (show 256 ≤ 2 ^ 64 by decide).trans (Nat.not_lt.mp named)
    have left : value.toNat * 2 ^ shift.toNat % 2 ^ 256 = 0 :=
      Nat.mod_eq_zero_of_dvd ((Nat.pow_dvd_pow 2 most).mul_left value.toNat)
    have right : value.toNat / 2 ^ shift.toNat = 0 :=
      Nat.div_eq_of_lt (value.toNat_lt.trans_le (Nat.pow_le_pow_right (by decide) most))
    have exactly : ExactShifts shift value ↔
        value.toNat * 2 ^ (shift.toNat % 2 ^ 64) % 2 ^ 256 = 0 ∧
          value.toNat / 2 ^ (shift.toNat % 2 ^ 64) = 0 := by
      rw [← shl_toNat, ← shr_toNat]
      exact ⟨fun both => ⟨both.shl.trans left, both.shr.trans right⟩,
        fun both => ⟨both.1.trans left.symm, both.2.trans right.symm⟩⟩
    rw [exactly, or_iff_right named, Nat.div_eq_zero_iff_lt (Nat.two_pow_pos _), and_comm,
      ← Nat.dvd_iff_mod_eq_zero, pow_dvd_mul_pow]

/-- A shift to the right by 2 ^ 64 leaves one as it is. -/
theorem shift_past_words : ¬ ∀ shift value : Uint256, ExactShifts shift value := by
  intro claim
  have one : (toUint256 1).toNat = 1 := toUint256_toNat 1
  have amount : ∃ shift : Uint256, shift.toNat = 2 ^ 64 := by
    refine ⟨shl (toUint256 64) (toUint256 1), ?_⟩
    rw [shl_toNat, one, toUint256_toNat]
    rfl
  obtain ⟨shift, amount⟩ := amount
  have nonzero : shift.toNat ≠ 0 := by
    rw [amount]
    exact (Nat.two_pow_pos 64).ne'
  have low : shift.toNat % 2 ^ 64 = 0 := by rw [amount, Nat.mod_self]
  have exactly := (claim shift (toUint256 1)).shr
  rw [shr_toNat, low, Nat.pow_zero, Nat.div_one, one,
    Nat.div_eq_of_lt (Nat.one_lt_two_pow nonzero)] at exactly
  exact absurd exactly Nat.one_ne_zero

end Parthenon.Evm.VM
