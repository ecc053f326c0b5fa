import Parthenon.Consensus.Difficulty

namespace Parthenon.Consensus.Difficulty

open Parthenon.Library Parthenon.Crypto

/-! # Targets as numbers

Compact bits stand for a mantissa times a power of 256, and a hash proves its
work when its number is at most that.
-/

def exponentOf (compact : UInt32) : Nat := (compact >>> 24).toNat

def mantissaOf (compact : UInt32) : Nat := (compact &&& 0x00FFFFFF).toNat

/-- The target of compact bits as a number. -/
def targetOf (compact : UInt32) : Nat := ofLittleEndian (compactToBits256 compact).bytes

theorem place_bytes {offset : Nat} {bytes : Bytes} (fits : offset + bytes.length ≤ 32) :
    (place offset bytes).bytes =
      List.replicate offset 0 ++ (bytes ++ List.replicate (32 - offset - bytes.length) 0) := by
  apply List.ext_getElem
  · simp only [place, List.length_mapIdx, List.length_append, List.length_replicate]
    omega
  · intro index left right
    simp only [place, List.getElem_mapIdx, List.getElem_append, List.length_replicate,
      List.getElem_replicate]
    by_cases before : index < offset
    · rw [if_neg (by omega), dif_pos before]
    · rw [if_pos (by omega), dif_neg before]
      by_cases within : index - offset < bytes.length
      · rw [dif_pos within, List.getD_eq_getElem?_getD, List.getElem?_eq_getElem within]
        rfl
      · rw [dif_neg within, List.getD_eq_getElem?_getD, List.getElem?_eq_none (by omega)]
        rfl

theorem place_value {offset : Nat} {bytes : Bytes} (fits : offset + bytes.length ≤ 32) :
    ofLittleEndian (place offset bytes).bytes = ofLittleEndian bytes * 256 ^ offset := by
  rw [place_bytes fits, ofLittleEndian_append, ofLittleEndian_append, ofLittleEndian_zeros,
    ofLittleEndian_zeros, List.length_replicate]
  ring

theorem mantissaOf_lt (compact : UInt32) : mantissaOf compact < 0x1000000 := by
  rw [mantissaOf, UInt32.toNat_and]
  exact Nat.lt_of_le_of_lt Nat.and_le_right (by decide)

theorem compactToBits256_eq (compact : UInt32) :
    compactToBits256 compact =
      if exponentOf compact = 0 then zeroHash
      else if exponentOf compact ≤ 3 then
        place 0 ((littleEndian 3 ((compact &&& 0x00FFFFFF) >>>
          UInt32.ofNat (8 * (3 - exponentOf compact))).toNat).take (exponentOf compact))
      else if exponentOf compact ≤ 32 then
        place (exponentOf compact - 3) (littleEndian 3 (mantissaOf compact))
      else zeroHash := rfl

theorem targetOf_eq {compact : UInt32} (low : 3 ≤ exponentOf compact)
    (high : exponentOf compact ≤ 32) :
    targetOf compact = mantissaOf compact * 256 ^ (exponentOf compact - 3) := by
  have three : ofLittleEndian (littleEndian 3 (mantissaOf compact)) = mantissaOf compact := by
    rw [ofLittleEndian_littleEndian]
    exact Nat.mod_eq_of_lt (mantissaOf_lt compact)
  rw [targetOf, compactToBits256_eq, if_neg (by omega)]
  by_cases short : exponentOf compact ≤ 3
  · have exact_ : exponentOf compact = 3 := Nat.le_antisymm short low
    have whole : ((compact &&& 0x00FFFFFF) >>> UInt32.ofNat (8 * (3 - 3))).toNat =
        mantissaOf compact := by
      rw [UInt32.toNat_shiftRight]
      rfl
    rw [if_pos short, exact_, whole, List.take_of_length_le (by simp), place_value (by simp), three]
  · rw [if_neg short, if_pos high, place_value (by rw [littleEndian_length]; omega), three]

theorem targetOf_short {compact : UInt32} (some_ : exponentOf compact ≠ 0)
    (short : exponentOf compact ≤ 3) :
    targetOf compact = mantissaOf compact / 256 ^ (3 - exponentOf compact) := by
  have fits := mantissaOf_lt compact
  have shifted : ((compact &&& 0x00FFFFFF) >>> UInt32.ofNat (8 * (3 - exponentOf compact))).toNat =
      mantissaOf compact / 256 ^ (3 - exponentOf compact) := by
    rw [UInt32.toNat_shiftRight, UInt32.toNat_ofNat', Nat.mod_eq_of_lt (by omega),
      Nat.mod_eq_of_lt (by omega), Nat.shiftRight_eq_div_pow, Nat.pow_mul]
    rfl
  have width : (256 : Nat) ^ 3 = 256 ^ (3 - exponentOf compact) * 256 ^ exponentOf compact := by
    rw [← Nat.pow_add, Nat.sub_add_cancel short]
  have narrow : mantissaOf compact / 256 ^ (3 - exponentOf compact) < 256 ^ exponentOf compact := by
    rw [Nat.div_lt_iff_lt_mul (Nat.pow_pos (by decide)), Nat.mul_comm, ← width]
    exact fits
  rw [targetOf, compactToBits256_eq, if_neg some_, if_pos short, shifted, littleEndian_take short,
    place_value (by rw [littleEndian_length]; omega), ofLittleEndian_littleEndian,
    Nat.mod_eq_of_lt narrow, Nat.pow_zero, Nat.mul_one]

section Packing

variable {exponent mantissa : Nat}

theorem packed_toNat (exponentFits : exponent < 256) (mantissaFits : mantissa < 0x1000000) :
    (UInt32.ofNat exponent <<< 24 ||| UInt32.ofNat (mantissa &&& 0x00FFFFFF)).toNat =
      exponent * 2 ^ 24 + mantissa := by
  have kept : mantissa &&& 0x00FFFFFF = mantissa := by
    rw [show 0x00FFFFFF = 2 ^ 24 - 1 from rfl, Nat.and_two_pow_sub_one_eq_mod]
    exact Nat.mod_eq_of_lt mantissaFits
  rw [UInt32.toNat_or, UInt32.toNat_shiftLeft, UInt32.toNat_ofNat', UInt32.toNat_ofNat', kept,
    Nat.mod_eq_of_lt (show exponent < 2 ^ 32 by omega),
    Nat.mod_eq_of_lt (show mantissa < 2 ^ 32 by omega), Nat.shiftLeft_eq]
  rw [show (24 : UInt32).toNat % 32 = 24 from rfl,
    Nat.mod_eq_of_lt (show exponent * 2 ^ 24 < 2 ^ 32 by omega), Nat.mul_comm,
    Nat.two_pow_add_eq_or_of_lt mantissaFits]

theorem exponentOf_packed (exponentFits : exponent < 256) (mantissaFits : mantissa < 0x1000000) :
    exponentOf (UInt32.ofNat exponent <<< 24 ||| UInt32.ofNat (mantissa &&& 0x00FFFFFF)) =
      exponent := by
  rw [exponentOf, UInt32.toNat_shiftRight, packed_toNat exponentFits mantissaFits,
    Nat.shiftRight_eq_div_pow, show (24 : UInt32).toNat % 32 = 24 from rfl]
  omega

theorem mantissaOf_packed (exponentFits : exponent < 256) (mantissaFits : mantissa < 0x1000000) :
    mantissaOf (UInt32.ofNat exponent <<< 24 ||| UInt32.ofNat (mantissa &&& 0x00FFFFFF)) =
      mantissa := by
  rw [mantissaOf, UInt32.toNat_and, packed_toNat exponentFits mantissaFits,
    show (0x00FFFFFF : UInt32).toNat = 2 ^ 24 - 1 from rfl, Nat.and_two_pow_sub_one_eq_mod]
  omega

theorem targetOf_packed (low : 3 ≤ exponent) (high : exponent ≤ 32)
    (mantissaFits : mantissa < 0x1000000) :
    targetOf (UInt32.ofNat exponent <<< 24 ||| UInt32.ofNat (mantissa &&& 0x00FFFFFF)) =
      mantissa * 256 ^ (exponent - 3) := by
  have exponentBack := exponentOf_packed (show exponent < 256 by omega) mantissaFits
  have mantissaBack := mantissaOf_packed (show exponent < 256 by omega) mantissaFits
  rw [targetOf_eq (exponentBack.symm ▸ low) (exponentBack.symm ▸ high), exponentBack, mantissaBack]

end Packing

/-- Comparing from the most significant byte compares the numbers. -/
theorem compareBytes_nonpos {left right : Bytes} (sameLength : left.length = right.length) :
    compareBytes left right ≤ 0 ↔
      ofLittleEndian left.reverse ≤ ofLittleEndian right.reverse := by
  induction left generalizing right with
  | nil =>
      cases right with
      | nil => exact iff_of_true (Int.le_refl 0) (Nat.le_refl _)
      | cons byte rest => cases sameLength
  | cons byte rest ih =>
      cases right with
      | nil => cases sameLength
      | cons other others =>
          have lengths : rest.length = others.length := Nat.succ.inj sameLength
          have low := ofLittleEndian_lt rest.reverse
          have otherLow := ofLittleEndian_lt others.reverse
          rw [List.length_reverse] at low otherLow
          rw [← lengths] at otherLow
          rw [compareBytes, List.reverse_cons, List.reverse_cons, ofLittleEndian_append,
            ofLittleEndian_append, List.length_reverse, List.length_reverse, ← lengths]
          simp only [ofLittleEndian, Nat.zero_shiftLeft, Nat.add_zero]
          rcases Nat.lt_trichotomy byte.toNat other.toNat with less | same | more
          · rw [if_pos (UInt8.lt_iff_toNat_lt.mpr less)]
            have step : 256 ^ rest.length * (byte.toNat + 1) ≤ 256 ^ rest.length * other.toNat :=
              Nat.mul_le_mul_left _ less
            refine iff_of_true (by decide) ?_
            rw [Nat.mul_add] at step
            omega
          · have equal : byte = other := UInt8.toNat_inj.mp same
            rw [if_neg (by rw [UInt8.lt_iff_toNat_lt]; omega),
              if_neg (by rw [GT.gt, UInt8.lt_iff_toNat_lt]; omega), ih lengths, equal]
            exact Nat.add_le_add_iff_right.symm
          · rw [if_neg (by rw [UInt8.lt_iff_toNat_lt]; omega),
              if_pos (UInt8.lt_iff_toNat_lt.mpr more)]
            have step : 256 ^ rest.length * (other.toNat + 1) ≤ 256 ^ rest.length * byte.toNat :=
              Nat.mul_le_mul_left _ more
            refine iff_of_false (by decide) ?_
            rw [Nat.mul_add] at step
            omega

/-- A hash proves its work when its number is at most the target. -/
theorem checkProofOfWork_iff (hash : Hash) (compactBits : UInt32) :
    checkProofOfWork hash compactBits = true ↔
      ofLittleEndian hash.bytes ≤ targetOf compactBits := by
  have lengths : hash.bytes.reverse.length = (compactToBits256 compactBits).bytes.reverse.length := by
    rw [List.length_reverse, List.length_reverse, hash.length_eq,
      (compactToBits256 compactBits).length_eq]
  have compared := compareBytes_nonpos lengths
  rw [List.reverse_reverse, List.reverse_reverse] at compared
  exact decide_eq_true_iff.trans compared

end Parthenon.Consensus.Difficulty
