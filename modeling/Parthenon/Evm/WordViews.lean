import Parthenon.Evm.Exponentiation
import Parthenon.Evm.LongDivision
import Parthenon.Evm.Machine
import Parthenon.Evm.Shifts

namespace Parthenon.Evm

open Library Machine

/-! # Words as bit vectors

Each operation of the virtual machine on 32 bytes is one on 256 bits, products, powers
and shifts where they are exact.
-/

def Uint256.word (value : Uint256) : BitVec 256 := BitVec.ofNat 256 value.toNat

def Uint256.ofWord (word : BitVec 256) : Uint256 := ⟨wordBytes word, wordBytes_length word⟩

namespace Uint256

@[simp] theorem word_toNat (value : Uint256) : value.word.toNat = value.toNat := by
  rw [word, BitVec.toNat_ofNat, Nat.mod_eq_of_lt value.toNat_lt]

theorem eq_word {value : Uint256} {word : BitVec 256} (same : value.toNat = word.toNat) :
    value.word = word :=
  BitVec.eq_of_toNat_eq (value.word_toNat.trans same)

theorem word_inj {left right : Uint256} (same : left.word = right.word) : left = right := by
  have numbers := congrArg BitVec.toNat same
  rw [word_toNat, word_toNat] at numbers
  exact toNat_inj numbers

theorem wordBytes_word (value : Uint256) : wordBytes value.word = value.bytes := by
  have bytes := littleEndian_ofLittleEndian value.bytes.reverse
  rw [List.length_reverse, value.length_eq] at bytes
  rw [wordBytes, word_toNat, toNat, bytes, List.reverse_reverse]

theorem bytesWord_bytes (value : Uint256) : bytesWord value.bytes = value.word := rfl

@[simp] theorem ofWord_word (value : Uint256) : ofWord value.word = value :=
  FixedBytes.ext value.wordBytes_word

@[simp] theorem word_ofWord (word : BitVec 256) : (ofWord word).word = word := bytesWord_wordBytes word

@[simp] theorem word_zero : Uint256.word (.zero 32) = 0 := eq_word toNat_zero

theorem word_eq_zero_iff {value : Uint256} : value.word = 0 ↔ value.toNat = 0 := by
  constructor
  · intro zero
    rw [← value.word_toNat, zero]
    rfl
  · intro zero
    exact eq_word zero

end Uint256

open Uint256

theorem toUint256_word (value : UInt64) : (toUint256 value).word = BitVec.ofNat 256 value.toNat := by
  rw [word, toUint256_toNat]

theorem flag_word (condition : Bool) : (VM.flag condition).word = truth condition := by
  cases condition with
  | true => exact eq_word (toUint256_toNat 1)
  | false => exact eq_word (toUint256_toNat 0)

namespace VM

variable (a b : Uint256)

theorem add_word : (add a b).word = a.word + b.word := by
  apply eq_word
  rw [add_toNat, BitVec.toNat_add, word_toNat, word_toNat]

theorem sub_word : (sub a b).word = a.word - b.word := by
  have exactly := sub_toNat a b
  have firstSmall := a.toNat_lt
  have secondSmall := b.toNat_lt
  apply eq_word
  rw [BitVec.toNat_sub, word_toNat, word_toNat]
  omega

theorem mul_word (agree : RowsAgree a.toNat b.toNat) : (mul a b).word = a.word * b.word := by
  apply eq_word
  rw [(mul_toNat_iff a b).mpr agree, BitVec.toNat_mul, word_toNat, word_toNat]

theorem div_word : (div a b).word = a.word / b.word := by
  obtain ⟨byZero, exactly⟩ := div_mod_euclidean a b
  apply eq_word
  rw [BitVec.toNat_udiv, word_toNat, word_toNat]
  rcases Nat.eq_zero_or_pos b.toNat with zero | positive
  · rw [(byZero zero).1, zero, Nat.div_zero]
  · obtain ⟨sum, less⟩ := exactly positive.ne'
    rw [sum, Nat.mul_add_div positive, Nat.div_eq_of_lt less, Nat.add_zero]

theorem mod_word : (mod a b).word = if b.word = 0 then 0 else a.word % b.word := by
  obtain ⟨byZero, exactly⟩ := div_mod_euclidean a b
  rcases Nat.eq_zero_or_pos b.toNat with zero | positive
  · rw [if_pos (word_eq_zero_iff.mpr zero)]
    exact word_eq_zero_iff.mpr (byZero zero).2
  · obtain ⟨sum, less⟩ := exactly positive.ne'
    rw [if_neg (word_eq_zero_iff.not.mpr positive.ne')]
    apply eq_word
    rw [BitVec.toNat_umod, word_toNat, word_toNat, sum, Nat.mul_add_mod, Nat.mod_eq_of_lt less]

theorem exp_word (bytes : SquaresAreBytes a b) :
    (exp a b).word = BitVec.ofNat 256 (a.word.toNat ^ b.word.toNat) := by
  apply eq_word
  rw [bytes.exact.1, BitVec.toNat_ofNat, word_toNat, word_toNat]

/-- A shift word past 64 bits moves every bit of the value out, unless its low bits do not. -/
theorem shl_word (exactly : a.toNat < 2 ^ 64 ∨ 2 ^ (256 - a.toNat % 2 ^ 64) ∣ b.toNat) :
    (shl a b).word = b.word <<< a.word.toNat := by
  apply eq_word
  rw [shl_toNat, BitVec.toNat_shiftLeft, word_toNat, word_toNat, Nat.shiftLeft_eq]
  by_cases named : a.toNat < 2 ^ 64
  · rw [Nat.mod_eq_of_lt named]
  · have out := exactly.resolve_left named
    have most : 256 ≤ a.toNat := (show 256 ≤ 2 ^ 64 by decide).trans (Nat.not_lt.mp named)
    rw [Nat.mod_eq_zero_of_dvd (pow_dvd_mul_pow.mpr out),
      Nat.mod_eq_zero_of_dvd ((Nat.pow_dvd_pow 2 most).mul_left b.toNat)]

theorem shr_word (exactly : a.toNat < 2 ^ 64 ∨ b.toNat < 2 ^ (a.toNat % 2 ^ 64)) :
    (shr a b).word = b.word >>> a.word.toNat := by
  apply eq_word
  rw [shr_toNat, BitVec.toNat_ushiftRight, word_toNat, word_toNat, Nat.shiftRight_eq_div_pow]
  by_cases named : a.toNat < 2 ^ 64
  · rw [Nat.mod_eq_of_lt named]
  · have out := exactly.resolve_left named
    have most : 256 ≤ a.toNat := (show 256 ≤ 2 ^ 64 by decide).trans (Nat.not_lt.mp named)
    rw [Nat.div_eq_of_lt out,
      Nat.div_eq_of_lt (b.toNat_lt.trans_le (Nat.pow_le_pow_right (by decide) most))]

/-! ## Comparisons -/

theorem lt_flag_word : (flag (lt a b)).word = truth (a.word < b.word) := by
  rw [flag_word]
  congr 1
  rw [Bool.eq_iff_iff, lt_iff, decide_eq_true_iff, BitVec.lt_def, word_toNat, word_toNat]

theorem eq_flag_word : (flag (eq a b)).word = truth (a.word = b.word) := by
  rw [flag_word]
  congr 1
  rw [eq_eq, Bool.eq_iff_iff, decide_eq_true_iff, decide_eq_true_iff]
  exact ⟨congrArg Uint256.word, word_inj⟩

theorem isZero_flag_word : (flag (isZero a)).word = truth (a.word = 0) := by
  rw [flag_word]
  congr 1
  rw [Bool.eq_iff_iff, isZero_iff, decide_eq_true_iff, word_eq_zero_iff]

/-! ## Bits -/

/-- A bit of the word is one of the byte that holds it. -/
theorem getLsbD_word {index : Nat} (inside : index < 256) :
    a.word.getLsbD index = (a.get (31 - index / 8)).toNat.testBit (index % 8) := by
  have bit := bitAt_eq a (show 255 - index < 256 by omega)
  rw [bitAt, show 255 - (255 - index) = index by omega, show (255 - index) / 8 = 31 - index / 8 by omega,
    show 7 - (255 - index) % 8 = index % 8 by omega] at bit
  rw [BitVec.getLsbD, word_toNat, bit]

theorem zipBytes_get (combine : UInt8 → UInt8 → UInt8) {index : Nat} (inside : index < 32) :
    (zipBytes combine a b).get index = combine (a.get index) (b.get index) := by
  have first : index < a.bytes.length := a.length_eq.symm ▸ inside
  have second : index < b.bytes.length := b.length_eq.symm ▸ inside
  have zipped : index < (List.zipWith combine a.bytes b.bytes).length := by
    rw [List.length_zipWith]
    exact lt_min first second
  simp only [FixedBytes.get, zipBytes, List.getD_eq_getElem?_getD, List.getElem?_eq_getElem zipped,
    List.getElem?_eq_getElem first, List.getElem?_eq_getElem second, Option.getD_some,
    List.getElem_zipWith]

/-- What is done bit by bit to the bytes is done to the word. -/
theorem zipBytes_word {combine : UInt8 → UInt8 → UInt8} {combineBits : Bool → Bool → Bool}
    {combineWords : BitVec 256 → BitVec 256 → BitVec 256}
    (bytes : ∀ left right index, (combine left right).toNat.testBit index =
      combineBits (left.toNat.testBit index) (right.toNat.testBit index))
    (words : ∀ left right index, index < 256 → (combineWords left right).getLsbD index =
      combineBits (left.getLsbD index) (right.getLsbD index)) :
    (zipBytes combine a b).word = combineWords a.word b.word := by
  apply BitVec.eq_of_getLsbD_eq
  intro index inside
  rw [words _ _ _ inside, getLsbD_word _ inside, getLsbD_word _ inside, getLsbD_word _ inside,
    zipBytes_get a b combine (by omega), bytes]

theorem and_word : (and a b).word = a.word &&& b.word :=
  zipBytes_word a b (fun _ _ _ => by rw [UInt8.toNat_and, Nat.testBit_and])
    fun _ _ _ _ => BitVec.getLsbD_and

theorem or_word : (or a b).word = a.word ||| b.word :=
  zipBytes_word a b (fun _ _ _ => by rw [UInt8.toNat_or, Nat.testBit_or])
    fun _ _ _ _ => BitVec.getLsbD_or

theorem xor_word : (xor a b).word = a.word ^^^ b.word :=
  zipBytes_word a b (fun _ _ _ => by rw [UInt8.toNat_xor, Nat.testBit_xor])
    fun _ _ _ _ => BitVec.getLsbD_xor

theorem not_word : (not a).word = ~~~ a.word := by
  apply BitVec.eq_of_getLsbD_eq
  intro index inside
  have byte : (not a).get (31 - index / 8) = ~~~ a.get (31 - index / 8) := by
    have there : 31 - index / 8 < a.bytes.length := by
      rw [a.length_eq]
      omega
    simp only [FixedBytes.get, not, List.getD_eq_getElem?_getD, List.getElem?_map,
      List.getElem?_eq_getElem there, Option.map_some, Option.getD_some]
  have small := (a.get (31 - index / 8)).toNat_lt
  have low : index % 8 < 8 := Nat.mod_lt _ (by decide)
  have complement : (~~~ a.get (31 - index / 8)).toNat =
      2 ^ 8 - ((a.get (31 - index / 8)).toNat + 1) := by
    rw [UInt8.toNat_not]
    change 256 - 1 - _ = 256 - _
    omega
  rw [BitVec.getLsbD_not, getLsbD_word _ inside, getLsbD_word _ inside, byte, complement,
    Nat.testBit_two_pow_sub_succ small, decide_eq_true inside, decide_eq_true low]

end VM

end Parthenon.Evm
