import Parthenon.Evm.Words
import Parthenon.Library.Positional

namespace Parthenon.Evm

open Library

/-! # Words as numbers

A word is read as a number with its most significant byte first.  Its bytes are the
digits of the number, and the comparisons of the machine are those of the numbers.
-/

def Uint256.toNat (word : Uint256) : Nat := ofLittleEndian word.bytes.reverse

/-- A byte as a digit. -/
def digitOf (byte : UInt8) : Int := byte.toNat

theorem ofLittleEndian_reverse_append (high low : Bytes) :
    ofLittleEndian (high ++ low).reverse =
      ofLittleEndian high.reverse * 256 ^ low.length + ofLittleEndian low.reverse := by
  rw [List.reverse_append, ofLittleEndian_append, List.length_reverse, Nat.add_comm, Nat.mul_comm]

theorem ofLittleEndian_reverse_cons (byte : UInt8) (rest : Bytes) :
    ofLittleEndian (byte :: rest).reverse =
      byte.toNat * 256 ^ rest.length + ofLittleEndian rest.reverse := by
  rw [List.reverse_cons, ofLittleEndian_append, List.length_reverse, ofLittleEndian,
    ofLittleEndian, Nat.zero_shiftLeft, Nat.add_zero, Nat.add_comm, Nat.mul_comm]

theorem ofLittleEndian_reverse_lt (bytes : Bytes) :
    ofLittleEndian bytes.reverse < 256 ^ bytes.length := by
  have below := ofLittleEndian_lt bytes.reverse
  rwa [List.length_reverse] at below

theorem placeValue_bytes (bytes : Bytes) :
    placeValue 256 digitOf bytes = (ofLittleEndian bytes.reverse : Nat) := by
  induction bytes with
  | nil => rfl
  | cons byte rest ih =>
      rw [placeValue, ih, ofLittleEndian_reverse_cons, digitOf]
      push_cast
      rfl

namespace Uint256

theorem toNat_eq_placeValue (word : Uint256) : (word.toNat : Int) = placeValue 256 digitOf word.bytes :=
  (placeValue_bytes word.bytes).symm

theorem toNat_lt (word : Uint256) : word.toNat < 2 ^ 256 := by
  have below := ofLittleEndian_reverse_lt word.bytes
  rw [word.length_eq] at below
  exact below

theorem toNat_inj {left right : Uint256} (same : left.toNat = right.toNat) : left = right := by
  have leftBytes := littleEndian_ofLittleEndian left.bytes.reverse
  have rightBytes := littleEndian_ofLittleEndian right.bytes.reverse
  rw [List.length_reverse, left.length_eq] at leftBytes
  rw [List.length_reverse, right.length_eq] at rightBytes
  apply FixedBytes.ext
  rw [← List.reverse_inj, ← leftBytes, ← rightBytes]
  exact congrArg (littleEndian 32) same

@[simp] theorem toNat_zero : toNat (.zero 32) = 0 := by
  rw [toNat, FixedBytes.zero, List.reverse_replicate, ofLittleEndian_zeros]

theorem get_toNat (word : Uint256) {index : Nat} (inside : index < 32) :
    (word.get index).toNat = word.toNat / 256 ^ (31 - index) % 256 := by
  have width := word.length_eq
  rw [toNat, ← getD_toNat, FixedBytes.get, List.getD_eq_getElem?_getD, List.getD_eq_getElem?_getD,
    List.getElem?_reverse (by omega), width, show 32 - 1 - (31 - index) = index by omega]

theorem take_toNat (word : Uint256) (count : Nat) :
    ofLittleEndian (word.bytes.take count).reverse = word.toNat / 256 ^ (32 - count) := by
  have low := ofLittleEndian_reverse_lt (word.bytes.drop count)
  have parts := ofLittleEndian_reverse_append (word.bytes.take count) (word.bytes.drop count)
  rw [List.take_append_drop] at parts
  rw [List.length_drop, word.length_eq] at low parts
  rw [toNat, parts, Nat.add_comm, Nat.add_mul_div_right _ _ (Nat.pow_pos (by decide)),
    Nat.div_eq_of_lt low, Nat.zero_add]

theorem drop_toNat (word : Uint256) (count : Nat) :
    ofLittleEndian (word.bytes.drop count).reverse = word.toNat % 256 ^ (32 - count) := by
  have low := ofLittleEndian_reverse_lt (word.bytes.drop count)
  have parts := ofLittleEndian_reverse_append (word.bytes.take count) (word.bytes.drop count)
  rw [List.take_append_drop] at parts
  rw [List.length_drop, word.length_eq] at low parts
  rw [toNat, parts, Nat.mul_comm, Nat.mul_add_mod, Nat.mod_eq_of_lt low]

theorem set_toNat (word : Uint256) {index : Nat} (inside : index < 32) (byte : UInt8) :
    toNat (word.set index byte) + (word.get index).toNat * 256 ^ (31 - index) =
      word.toNat + byte.toNat * 256 ^ (31 - index) := by
  have width := word.length_eq
  have here : index < word.bytes.length := by omega
  have old : word.bytes = word.bytes.take index ++ word.get index :: word.bytes.drop (index + 1) := by
    rw [FixedBytes.get, List.getD_eq_getElem?_getD, List.getElem?_eq_getElem here, Option.getD_some,
      List.cons_getElem_drop_succ, List.take_append_drop]
  have new : (word.set index byte).bytes =
      word.bytes.take index ++ byte :: word.bytes.drop (index + 1) := by
    change word.bytes.set index byte = _
    rw [List.set_eq_take_append_cons_drop, if_pos here]
  have count : (word.bytes.drop (index + 1)).length = 31 - index := by
    rw [List.length_drop]
    omega
  have oldValue := congrArg (fun bytes : Bytes => ofLittleEndian bytes.reverse) old
  simp only [ofLittleEndian_reverse_append, ofLittleEndian_reverse_cons, List.length_cons,
    count] at oldValue
  rw [toNat, toNat, new, oldValue, ofLittleEndian_reverse_append, ofLittleEndian_reverse_cons,
    List.length_cons, count]
  omega

end Uint256

@[simp] theorem toUint256_toNat (value : UInt64) : (toUint256 value).toNat = value.toNat := by
  rw [Uint256.toNat, toUint256, List.reverse_append, List.reverse_reverse, List.reverse_replicate,
    ofLittleEndian_append, ofLittleEndian_zeros, Nat.mul_zero, Nat.add_zero,
    ofLittleEndian_littleEndian]
  exact Nat.mod_eq_of_lt value.toNat_lt

theorem toUint64_toNat (word : Uint256) : (toUint64 word).toNat = word.toNat % 2 ^ 64 := by
  rw [toUint64, word.drop_toNat, UInt64.toNat_ofNat']
  exact Nat.mod_mod_of_dvd _ (by decide)

namespace VM

/-! ## Comparisons -/

theorem ltBytes_iff {left right : Bytes} (aligned : left.length = right.length) :
    ltBytes left right = true ↔ ofLittleEndian left.reverse < ofLittleEndian right.reverse := by
  induction left generalizing right with
  | nil =>
      cases right with
      | nil => simp [ltBytes, ofLittleEndian]
      | cons byte rest => cases aligned
  | cons byte rest ih =>
      cases right with
      | nil => cases aligned
      | cons other others =>
          have shorter : rest.length = others.length := Nat.succ.inj aligned
          have low := ofLittleEndian_reverse_lt rest
          have otherLow := ofLittleEndian_reverse_lt others
          rw [← shorter] at otherLow
          rw [ltBytes, ofLittleEndian_reverse_cons, ofLittleEndian_reverse_cons, ← shorter]
          rcases Nat.lt_trichotomy byte.toNat other.toNat with less | same | more
          · have step := Nat.mul_le_mul_right (256 ^ rest.length) (Nat.succ_le_of_lt less)
            rw [Nat.succ_mul] at step
            rw [if_pos (UInt8.lt_iff_toNat_lt.mpr less)]
            exact iff_of_true rfl (by omega)
          · rw [UInt8.toNat_inj.mp same, if_neg (UInt8.lt_irrefl _), if_neg (UInt8.lt_irrefl _),
              ih shorter]
            exact Nat.add_lt_add_iff_left.symm
          · have step := Nat.mul_le_mul_right (256 ^ rest.length) (Nat.succ_le_of_lt more)
            rw [Nat.succ_mul] at step
            rw [if_neg (by rw [UInt8.lt_iff_toNat_lt]; omega),
              if_pos (UInt8.lt_iff_toNat_lt.mpr more)]
            exact iff_of_false Bool.false_ne_true (by omega)

theorem lt_iff {a b : Uint256} : lt a b = true ↔ a.toNat < b.toNat :=
  ltBytes_iff (a.length_eq.trans b.length_eq.symm)

theorem eq_iff {a b : Uint256} : eq a b = true ↔ a.toNat = b.toNat := by
  rw [eq, beq_iff_eq]
  constructor
  · intro same
    rw [FixedBytes.ext same]
  · intro same
    rw [Uint256.toNat_inj same]

theorem isZero_iff {a : Uint256} : isZero a = true ↔ a.toNat = 0 := by
  have zeros : isZero a = true ↔ a = .zero 32 := by
    rw [isZero, List.all_eq_true, FixedBytes.ext_iff, FixedBytes.zero, List.eq_replicate_iff]
    simp [a.length_eq]
  rw [zeros]
  constructor
  · intro zero
    rw [zero, Uint256.toNat_zero]
  · intro zero
    exact Uint256.toNat_inj (zero.trans Uint256.toNat_zero.symm)

/-- The bit of a word at a distance from its first one is that of the number from the other end. -/
theorem bitAt_eq (a : Uint256) {i : Nat} (inside : i < 256) :
    bitAt a i = a.toNat.testBit (255 - i) := by
  rw [bitAt, a.get_toNat (by omega), show 256 = 2 ^ 8 from rfl, ← pow_mul, Nat.testBit_mod_two_pow,
    Nat.testBit_div_two_pow]
  simp only [show 7 - i % 8 < 8 by omega, decide_true, Bool.true_and]
  congr 1
  omega

end VM

end Parthenon.Evm
