import Mathlib.Tactic.Ring
import Parthenon.Library.Sums
import Parthenon.Library.ByteCodec
import Parthenon.Settlement.Escrow

namespace Parthenon.Settlement

open Library

/-! # Destination tags

A number for the receiver with a memo, which has to be a short text in UTF-8.
-/

structure DestinationTag where
  tag : UInt32
  memo : Bytes
deriving DecidableEq, Repr

def maxMemoSize : Nat := 256

namespace TagValidator

def validateTag (_tag : UInt32) : Bool := true

/-- The length that a lead byte announces, with its bits of the code point. -/
def leadByte (byte : UInt8) : Option (Nat × UInt32) :=
  if byte &&& 0xE0 = 0xC0 then
    -- a lead byte without bits would be overlong
    if (byte &&& 0x1F).toUInt32 = 0 then none else some (2, (byte &&& 0x1F).toUInt32)
  else if byte &&& 0xF0 = 0xE0 then some (3, (byte &&& 0x0F).toUInt32)
  else if byte &&& 0xF8 = 0xF0 then some (4, (byte &&& 0x07).toUInt32)
  else none

def continuation : UInt32 → Bytes → Option UInt32
  | codepoint, [] => some codepoint
  | codepoint, byte :: rest =>
      if byte &&& 0xC0 ≠ 0x80 then none
      else continuation (codepoint <<< 6 ||| (byte &&& 0x3F).toUInt32) rest

/-- Overlong forms, surrogates and values above the range. -/
def rejected (len : Nat) (codepoint : UInt32) : Bool :=
  (len == 2 && codepoint < 0x80) || (len == 3 && codepoint < 0x800) ||
    (len == 4 && codepoint < 0x10000) || codepoint > 0x10FFFF ||
    (codepoint ≥ 0xD800 && codepoint ≤ 0xDFFF)

/-- One turn of the loop: what follows the next character. -/
def afterChar : Bytes → Option Bytes
  | [] => none
  | byte :: rest =>
      if byte ≤ 0x7F then some rest
      else do
        let (len, bits) ← leadByte byte
        if rest.length + 1 < len then none
        else
          let codepoint ← continuation bits (rest.take (len - 1))
          if rejected len codepoint then none else some (rest.drop (len - 1))

/-- The loop, for at most so many characters. -/
def scan : Nat → Bytes → Bool
  | _, [] => true
  | 0, _ :: _ => false
  | turns + 1, byte :: rest =>
      match afterChar (byte :: rest) with
      | none => false
      | some after => scan turns after

def validateMemo (memo : Bytes) : Bool :=
  if memo.length > maxMemoSize then false else scan memo.length memo

def validateDestinationTag (tag : DestinationTag) : Bool :=
  validateTag tag.tag && validateMemo tag.memo

end TagValidator

namespace DestinationTag

def new : DestinationTag := ⟨0, []⟩

def isValid (tag : DestinationTag) : Bool := TagValidator.validateDestinationTag tag

/-- The length of a longer memo is reduced to two bytes. -/
def serialize (tag : DestinationTag) : Bytes :=
  littleEndian 4 tag.tag.toNat ++ littleEndian 2 tag.memo.length ++ tag.memo

/-- Where there are too few bytes the tag is a new one.  The position is then past the six
bytes of the tag and the length if these were there. -/
def deserialize (data : ByteVector) (pos : UInt64) : Option (DestinationTag × UInt64) :=
  if pos + 6 > UInt64.ofNat data.size then some (new, pos)
  else do
    let tag ← readAt data pos 4
    let memoLen := ofLittleEndian (← readAt data (pos + 4) 2)
    let pos := pos + 6
    if pos + UInt64.ofNat memoLen > UInt64.ofNat data.size then some (new, pos)
    else
      let memo ← readAt data pos memoLen
      some (⟨.ofNat (ofLittleEndian tag), memo⟩, pos + UInt64.ofNat memoLen)

end DestinationTag

/-! ## Bytes by number -/

namespace TagValidator

theorem masks (byte : UInt8) :
    (byte &&& 0xE0 = 0xC0 ↔ 0xC0 ≤ byte.toNat ∧ byte.toNat < 0xE0) ∧
    (byte &&& 0xF0 = 0xE0 ↔ 0xE0 ≤ byte.toNat ∧ byte.toNat < 0xF0) ∧
    (byte &&& 0xF8 = 0xF0 ↔ 0xF0 ≤ byte.toNat ∧ byte.toNat < 0xF8) ∧
    (byte &&& 0xC0 = 0x80 ↔ 0x80 ≤ byte.toNat ∧ byte.toNat < 0xC0) := by
  have all : ∀ value < 256,
      (value &&& 0xE0 = 0xC0 ↔ 0xC0 ≤ value ∧ value < 0xE0) ∧
      (value &&& 0xF0 = 0xE0 ↔ 0xE0 ≤ value ∧ value < 0xF0) ∧
      (value &&& 0xF8 = 0xF0 ↔ 0xF0 ≤ value ∧ value < 0xF8) ∧
      (value &&& 0xC0 = 0x80 ↔ 0x80 ≤ value ∧ value < 0xC0) := by decide +kernel
  simp only [← UInt8.toNat_inj, UInt8.toNat_and]
  exact all byte.toNat byte.toNat_lt

theorem low_bits (byte : UInt8) :
    (byte &&& 0x1F).toUInt32.toNat = byte.toNat % 32 ∧
    (byte &&& 0x0F).toUInt32.toNat = byte.toNat % 16 ∧
    (byte &&& 0x07).toUInt32.toNat = byte.toNat % 8 ∧
    (byte &&& 0x3F).toUInt32.toNat = byte.toNat % 64 := by
  simp only [UInt8.toNat_toUInt32, UInt8.toNat_and]
  exact ⟨Nat.and_two_pow_sub_one_eq_mod _ 5, Nat.and_two_pow_sub_one_eq_mod _ 4,
    Nat.and_two_pow_sub_one_eq_mod _ 3, Nat.and_two_pow_sub_one_eq_mod _ 6⟩

theorem leadByte_eq_some_iff {byte : UInt8} {len : Nat} {bits : UInt32} :
    leadByte byte = some (len, bits) ↔
      (len = 2 ∧ 0xC0 < byte.toNat ∧ byte.toNat < 0xE0 ∧ bits.toNat + 0xC0 = byte.toNat) ∨
      (len = 3 ∧ 0xE0 ≤ byte.toNat ∧ byte.toNat < 0xF0 ∧ bits.toNat + 0xE0 = byte.toNat) ∨
      (len = 4 ∧ 0xF0 ≤ byte.toNat ∧ byte.toNat < 0xF8 ∧ bits.toNat + 0xF0 = byte.toNat) := by
  obtain ⟨two, three, four, -⟩ := masks byte
  obtain ⟨bitsTwo, bitsThree, bitsFour, -⟩ := low_bits byte
  unfold leadByte
  simp only [two, three, four, ← UInt32.toNat_inj, bitsTwo, UInt32.toNat_zero]
  clear two three four
  by_cases isTwo : 0xC0 ≤ byte.toNat ∧ byte.toNat < 0xE0
  · rw [if_pos isTwo]
    split
    · rename_i empty
      refine iff_of_false (fun none => nomatch none) ?_
      omega
    · rw [Option.some.injEq, Prod.mk.injEq, ← UInt32.toNat_inj, bitsTwo]
      omega
  · rw [if_neg isTwo]
    by_cases isThree : 0xE0 ≤ byte.toNat ∧ byte.toNat < 0xF0
    · rw [if_pos isThree, Option.some.injEq, Prod.mk.injEq, ← UInt32.toNat_inj, bitsThree]
      omega
    · rw [if_neg isThree]
      by_cases isFour : 0xF0 ≤ byte.toNat ∧ byte.toNat < 0xF8
      · rw [if_pos isFour, Option.some.injEq, Prod.mk.injEq, ← UInt32.toNat_inj, bitsFour]
        omega
      · rw [if_neg isFour]
        refine iff_of_false (fun none => nomatch none) ?_
        omega

def IsTail (byte : UInt8) : Prop := 0x80 ≤ byte.toNat ∧ byte.toNat < 0xC0

/-- The code point that bytes of six bits complete. -/
def joined (bits : Nat) (bytes : Bytes) : Nat :=
  bytes.foldl (fun code byte => code * 64 + byte.toNat % 64) bits

theorem shifted_toNat {codepoint : UInt32} (byte : UInt8) (fits : codepoint.toNat < 2 ^ 26) :
    (codepoint <<< 6 ||| (byte &&& 0x3F).toUInt32).toNat =
      codepoint.toNat * 64 + byte.toNat % 64 := by
  have six : byte.toNat % 64 < 2 ^ 6 := Nat.mod_lt _ (by decide)
  have moved : codepoint.toNat <<< 6 = codepoint.toNat * 64 := by
    rw [Nat.shiftLeft_eq]
  have room : codepoint.toNat * 64 < 2 ^ 32 := by omega
  have shift : (6 : UInt32).toNat % 32 = 6 := rfl
  rw [UInt32.toNat_or, UInt32.toNat_shiftLeft, (low_bits byte).2.2.2, shift, moved,
    Nat.mod_eq_of_lt room, ← moved, Nat.shiftLeft_add_eq_or_of_lt six]

theorem continuation_eq_some_iff {codepoint code : UInt32} {bytes : Bytes}
    (fits : (codepoint.toNat + 1) * 64 ^ bytes.length ≤ 2 ^ 32) :
    continuation codepoint bytes = some code ↔
      (∀ byte ∈ bytes, IsTail byte) ∧ code.toNat = joined codepoint.toNat bytes := by
  induction bytes generalizing codepoint with
  | nil =>
      rw [continuation, Option.some.injEq, ← UInt32.toNat_inj, eq_comm]
      simp [joined]
  | cons byte rest ih =>
      have tail : byte &&& 0xC0 = 0x80 ↔ IsTail byte := (masks byte).2.2.2
      rw [List.length_cons, Nat.pow_succ] at fits
      have positive : 0 < 64 ^ rest.length := Nat.pow_pos (by decide)
      have small : codepoint.toNat < 2 ^ 26 := by
        have least : (codepoint.toNat + 1) * (1 * 64) ≤
            (codepoint.toNat + 1) * (64 ^ rest.length * 64) :=
          Nat.mul_le_mul_left _ (Nat.mul_le_mul_right 64 positive)
        omega
      rw [continuation]
      by_cases isTail : byte &&& 0xC0 = 0x80
      · have next := shifted_toNat byte small
        have room : ((codepoint <<< 6 ||| (byte &&& 0x3F).toUInt32).toNat + 1) *
            64 ^ rest.length ≤ 2 ^ 32 := by
          have up : codepoint.toNat * 64 + byte.toNat % 64 + 1 ≤ (codepoint.toNat + 1) * 64 := by
            omega
          rw [next]
          calc (codepoint.toNat * 64 + byte.toNat % 64 + 1) * 64 ^ rest.length
              ≤ (codepoint.toNat + 1) * 64 * 64 ^ rest.length := Nat.mul_le_mul_right _ up
            _ = (codepoint.toNat + 1) * (64 ^ rest.length * 64) := by ring
            _ ≤ 2 ^ 32 := fits
        rw [if_neg (not_not.mpr isTail), ih room, next]
        simp [joined, tail.mp isTail]
      · rw [if_pos isTail]
        refine iff_of_false (fun none => nomatch none) ?_
        exact fun all => isTail (tail.mpr (all.1 byte List.mem_cons_self))

theorem rejected_eq_false_iff {len : Nat} {codepoint : UInt32} :
    rejected len codepoint = false ↔
      (len = 2 → 0x80 ≤ codepoint.toNat) ∧ (len = 3 → 0x800 ≤ codepoint.toNat) ∧
        (len = 4 → 0x10000 ≤ codepoint.toNat) ∧ codepoint.toNat.isValidChar := by
  simp only [rejected, Nat.isValidChar, Bool.or_eq_false_iff, Bool.and_eq_false_iff,
    decide_eq_false_iff_not, beq_eq_false_iff_ne, UInt32.lt_iff_toNat_lt, UInt32.le_iff_toNat_le,
    gt_iff_lt, ge_iff_le, UInt32.reduceToNat]
  omega

/-- The bytes of a turn: one below 0x80, or a lead byte with its tail. -/
theorem afterChar_eq_some_iff {byte : UInt8} {rest after : Bytes} :
    afterChar (byte :: rest) = some after ↔
      (byte.toNat ≤ 0x7F ∧ rest = after) ∨
      (0x7F < byte.toNat ∧ ∃ len bits tail code, leadByte byte = some (len, bits) ∧
        rest = tail ++ after ∧ tail.length + 1 = len ∧ continuation bits tail = some code ∧
        rejected len code = false) := by
  rw [afterChar]
  by_cases one : byte.toNat ≤ 0x7F
  · rw [if_pos (UInt8.le_iff_toNat_le.mpr one), Option.some.injEq]
    exact ⟨fun same => .inl ⟨one, same⟩, fun either =>
      either.elim (fun here => here.2) fun more => absurd one (Nat.not_le.mpr more.1)⟩
  · rw [if_neg (mt UInt8.le_iff_toNat_le.mp one)]
    constructor
    · intro taken
      obtain ⟨⟨len, bits⟩, isLead, taken⟩ := Option.bind_eq_some_iff.mp taken
      dsimp only at taken
      split at taken
      · cases taken
      · rename_i enough
        obtain ⟨code, isCode, taken⟩ := Option.bind_eq_some_iff.mp taken
        split at taken
        · cases taken
        · rename_i kept
          cases taken
          have positive : 2 ≤ len := by
            rcases leadByte_eq_some_iff.mp isLead with two | three | four <;> omega
          refine .inr ⟨by omega, len, bits, rest.take (len - 1), code, isLead,
            (List.take_append_drop _ _).symm, ?_, isCode, by simpa using kept⟩
          rw [List.length_take]
          omega
    · rintro (⟨here, -⟩ | ⟨-, len, bits, tail, code, isLead, rfl, isLength, isCode, kept⟩)
      · exact absurd here one
      · have length : len - 1 = tail.length := by omega
        have enough : ¬ (tail ++ after).length + 1 < len := by
          rw [List.length_append]
          omega
        simp only [isLead, Option.bind_eq_bind, Option.bind_some, length, List.take_left,
          List.drop_left, isCode, if_neg enough]
        rw [kept]
        rfl

theorem ofNat_eq {value : Nat} {byte : UInt8} (same : value = byte.toNat) :
    UInt8.ofNat value = byte := by
  rw [same, UInt8.ofNat_toNat]

theorem small_byte {value : Nat} (small : value < 256) : (UInt8.ofNat value).toNat = value :=
  UInt8.toNat_ofNat_of_lt' small

theorem small_word {value : Nat} (small : value < 2 ^ 32) : (UInt32.ofNat value).toNat = value :=
  UInt32.toNat_ofNat_of_lt' small

/-- A lead byte with the bits of a code point that its tail completes. -/
theorem sequence_taken {byte : UInt8} {bits : Nat} {tail after : Bytes} (len code : Nat)
    (isLead : len = 2 ∧ 0xC0 < byte.toNat ∧ byte.toNat < 0xE0 ∧ bits + 0xC0 = byte.toNat ∨
      len = 3 ∧ 0xE0 ≤ byte.toNat ∧ byte.toNat < 0xF0 ∧ bits + 0xE0 = byte.toNat ∨
      len = 4 ∧ 0xF0 ≤ byte.toNat ∧ byte.toNat < 0xF8 ∧ bits + 0xF0 = byte.toNat)
    (isLength : tail.length + 1 = len) (tails : ∀ byte ∈ tail, IsTail byte)
    (isCode : code = joined bits tail) (valid : code.isValidChar)
    (shortest : (len = 2 → 0x80 ≤ code) ∧ (len = 3 → 0x800 ≤ code) ∧ (len = 4 → 0x10000 ≤ code)) :
    afterChar (byte :: (tail ++ after)) = some after := by
  have isBits : (UInt32.ofNat bits).toNat = bits := small_word (by omega)
  have isCodeNat : (UInt32.ofNat code).toNat = code := small_word (by
    rcases valid with low | ⟨-, high⟩ <;> omega)
  rw [afterChar_eq_some_iff]
  refine .inr ⟨by omega, len, .ofNat bits, tail, .ofNat code, ?_, rfl, isLength, ?_, ?_⟩
  · rw [leadByte_eq_some_iff, isBits]
    exact isLead
  · rw [continuation_eq_some_iff, isBits, isCodeNat]
    · exact ⟨tails, isCode⟩
    · rw [isBits]
      rcases isLead with ⟨rfl, _⟩ | ⟨rfl, _⟩ | ⟨rfl, _⟩
      all_goals
        rw [Nat.add_right_cancel isLength]
        omega
  · rw [rejected_eq_false_iff, isCodeNat]
    exact ⟨shortest.1, shortest.2.1, shortest.2.2, valid⟩

theorem tail_byte {value : Nat} (small : value < 64) :
    IsTail (.ofNat (value + 0x80)) ∧ (UInt8.ofNat (value + 0x80)).toNat % 64 = value := by
  have isNat : (UInt8.ofNat (value + 0x80)).toNat = value + 0x80 := small_byte (by omega)
  rw [IsTail, isNat]
  omega

/-- What a turn takes is the encoding of a character. -/
theorem char_of_afterChar {byte : UInt8} {rest after : Bytes}
    (taken : afterChar (byte :: rest) = some after) :
    ∃ char, byte :: rest = String.utf8EncodeChar char ++ after := by
  rcases afterChar_eq_some_iff.mp taken with ⟨one, rfl⟩ |
    ⟨-, len, bits, tail, code, isLead, rfl, isLength, isCode, kept⟩
  · have valid : byte.toNat.isValidChar := .inl (by omega)
    have isNat := toNat_ofNat_char valid
    refine ⟨Char.ofNat byte.toNat, ?_⟩
    rcases utf8EncodeChar_cases (Char.ofNat byte.toNat) with ⟨-, isBytes⟩ | ⟨more, -⟩ | ⟨more, -⟩ |
      ⟨more, -⟩
    · rw [isBytes, isNat, UInt8.ofNat_toNat]
      rfl
    all_goals omega
  · obtain ⟨overlongTwo, overlongThree, overlongFour, valid⟩ := rejected_eq_false_iff.mp kept
    have isNat := toNat_ofNat_char valid
    refine ⟨Char.ofNat code.toNat, ?_⟩
    have encoded := utf8EncodeChar_cases (Char.ofNat code.toNat)
    rw [isNat] at encoded
    rcases leadByte_eq_some_iff.mp isLead with ⟨rfl, low, high, isBits⟩ |
      ⟨rfl, low, high, isBits⟩ | ⟨rfl, low, high, isBits⟩
    · obtain ⟨x, rfl⟩ := List.length_eq_one_iff.mp (Nat.add_right_cancel isLength)
      rw [continuation_eq_some_iff (by simp only [List.length_cons, List.length_nil]; omega)]
        at isCode
      obtain ⟨tails, isJoined⟩ := isCode
      simp only [List.forall_mem_singleton, IsTail] at tails
      simp only [joined, List.foldl_cons, List.foldl_nil] at isJoined
      have overlong := overlongTwo rfl
      rcases encoded with ⟨one, -⟩ | ⟨-, isBytes⟩ | ⟨three, -⟩ | ⟨four, -⟩
      · omega
      · have isByte : UInt8.ofNat (code.toNat / 64 + 0xC0) = byte := ofNat_eq (by omega)
        have isX : UInt8.ofNat (code.toNat % 64 + 0x80) = x := ofNat_eq (by omega)
        rw [isBytes, isByte, isX]
        rfl
      all_goals omega
    · obtain ⟨x, y, rfl⟩ := List.length_eq_two.mp (Nat.add_right_cancel isLength)
      rw [continuation_eq_some_iff (by simp only [List.length_cons, List.length_nil]; omega)]
        at isCode
      obtain ⟨tails, isJoined⟩ := isCode
      simp only [List.forall_mem_cons, IsTail] at tails
      simp only [joined, List.foldl_cons, List.foldl_nil] at isJoined
      have overlong := overlongThree rfl
      rcases encoded with ⟨one, -⟩ | ⟨two, -⟩ | ⟨-, isBytes⟩ | ⟨four, -⟩
      · omega
      · omega
      · have isByte : UInt8.ofNat (code.toNat / 4096 + 0xE0) = byte := ofNat_eq (by omega)
        have isX : UInt8.ofNat (code.toNat / 64 % 64 + 0x80) = x := ofNat_eq (by omega)
        have isY : UInt8.ofNat (code.toNat % 64 + 0x80) = y := ofNat_eq (by omega)
        rw [isBytes, isByte, isX, isY]
        rfl
      · omega
    · obtain ⟨x, y, z, rfl⟩ := List.length_eq_three.mp (Nat.add_right_cancel isLength)
      rw [continuation_eq_some_iff (by simp only [List.length_cons, List.length_nil]; omega)]
        at isCode
      obtain ⟨tails, isJoined⟩ := isCode
      simp only [List.forall_mem_cons, IsTail] at tails
      simp only [joined, List.foldl_cons, List.foldl_nil] at isJoined
      have overlong := overlongFour rfl
      rcases encoded with ⟨one, -⟩ | ⟨two, -⟩ | ⟨three, -⟩ | ⟨-, isBytes⟩
      · omega
      · omega
      · omega
      · have isByte : UInt8.ofNat (code.toNat / 262144 + 0xF0) = byte := ofNat_eq (by omega)
        have isX : UInt8.ofNat (code.toNat / 4096 % 64 + 0x80) = x := ofNat_eq (by omega)
        have isY : UInt8.ofNat (code.toNat / 64 % 64 + 0x80) = y := ofNat_eq (by omega)
        have isZ : UInt8.ofNat (code.toNat % 64 + 0x80) = z := ofNat_eq (by omega)
        rw [isBytes, isByte, isX, isY, isZ]
        rfl

theorem afterChar_encoded (char : Char) (after : Bytes) :
    afterChar (String.utf8EncodeChar char ++ after) = some after := by
  have valid : char.toNat.isValidChar := char.valid
  have last := tail_byte (Nat.mod_lt char.toNat (by decide : 0 < 64))
  have middle := tail_byte (Nat.mod_lt (char.toNat / 64) (by decide : 0 < 64))
  have high := tail_byte (Nat.mod_lt (char.toNat / 4096) (by decide : 0 < 64))
  rcases utf8EncodeChar_cases char with ⟨one, encoded⟩ | ⟨two, encoded⟩ | ⟨three, encoded⟩ |
    ⟨four, encoded⟩
  · have isByte : (UInt8.ofNat char.toNat).toNat = char.toNat := small_byte (by omega)
    rw [encoded]
    exact afterChar_eq_some_iff.mpr (.inl ⟨by omega, rfl⟩)
  · have isByte : (UInt8.ofNat (char.toNat / 64 + 0xC0)).toNat = char.toNat / 64 + 0xC0 :=
      small_byte (by omega)
    rw [encoded]
    apply sequence_taken 2 char.toNat (.inl ⟨rfl, by omega, by omega, isByte.symm⟩) rfl
    · exact List.forall_mem_singleton.mpr last.1
    · simp only [joined, List.foldl_cons, List.foldl_nil, last.2]
      omega
    · exact valid
    · omega
  · have isByte : (UInt8.ofNat (char.toNat / 4096 + 0xE0)).toNat = char.toNat / 4096 + 0xE0 :=
      small_byte (by omega)
    rw [encoded]
    apply sequence_taken 3 char.toNat (.inr (.inl ⟨rfl, by omega, by omega, isByte.symm⟩)) rfl
    · exact List.forall_mem_cons.mpr ⟨middle.1, List.forall_mem_singleton.mpr last.1⟩
    · simp only [joined, List.foldl_cons, List.foldl_nil, last.2, middle.2]
      omega
    · exact valid
    · omega
  · have isByte : (UInt8.ofNat (char.toNat / 262144 + 0xF0)).toNat = char.toNat / 262144 + 0xF0 :=
      small_byte (by omega)
    rw [encoded]
    apply sequence_taken 4 char.toNat (.inr (.inr ⟨rfl, by omega, by omega, isByte.symm⟩)) rfl
    · exact List.forall_mem_cons.mpr ⟨high.1,
        List.forall_mem_cons.mpr ⟨middle.1, List.forall_mem_singleton.mpr last.1⟩⟩
    · simp only [joined, List.foldl_cons, List.foldl_nil, last.2, middle.2, high.2]
      omega
    · exact valid
    · omega

theorem afterChar_eq_some_iff_char {byte : UInt8} {rest after : Bytes} :
    afterChar (byte :: rest) = some after ↔
      ∃ char, byte :: rest = String.utf8EncodeChar char ++ after := by
  refine ⟨char_of_afterChar, ?_⟩
  rintro ⟨char, isBytes⟩
  rw [isBytes]
  exact afterChar_encoded char after

/-- The loop passes exactly over characters, given a turn for each byte. -/
theorem scan_iff {turns : Nat} {bytes : Bytes} (enough : bytes.length ≤ turns) :
    scan turns bytes = true ↔ IsUtf8 bytes := by
  induction turns generalizing bytes with
  | zero =>
      have none := List.length_eq_zero_iff.mp (Nat.le_zero.mp enough)
      rw [none, scan]
      exact iff_of_true rfl isUtf8_nil
  | succ turns ih =>
      cases bytes with
      | nil => exact iff_of_true rfl isUtf8_nil
      | cons byte rest =>
          rw [scan, isUtf8_cons_iff]
          cases taken : afterChar (byte :: rest) with
          | none =>
              refine iff_of_false Bool.false_ne_true ?_
              rintro ⟨char, after, isBytes, -⟩
              rw [afterChar_eq_some_iff_char.mpr ⟨char, isBytes⟩] at taken
              cases taken
          | some after =>
              obtain ⟨char, isBytes⟩ := afterChar_eq_some_iff_char.mp taken
              have length := congrArg List.length isBytes
              rw [List.length_append, String.length_utf8EncodeChar, List.length_cons] at length
              rw [List.length_cons] at enough
              have positive := char.utf8Size_pos
              dsimp only
              rw [ih (by omega)]
              constructor
              · exact fun isRest => ⟨char, after, isBytes, isRest⟩
              · rintro ⟨other, following, isOther, isRest⟩
                rw [afterChar_eq_some_iff_char.mpr ⟨other, isOther⟩] at taken
                cases taken
                exact isRest

theorem validateMemo_iff (memo : Bytes) :
    validateMemo memo = true ↔ memo.length ≤ maxMemoSize ∧ IsUtf8 memo := by
  unfold validateMemo
  by_cases long : memo.length > maxMemoSize
  · rw [if_pos long]
    exact iff_of_false Bool.false_ne_true fun short => Nat.not_lt.mpr short.1 long
  · rw [if_neg long, scan_iff (Nat.le_refl _)]
    exact (and_iff_right (Nat.not_lt.mp long)).symm

end TagValidator

/-! ## Round trips -/

namespace DestinationTag

theorem serialize_length (tag : DestinationTag) : tag.serialize.length = 6 + tag.memo.length := by
  rw [serialize, List.length_append, List.length_append, littleEndian_length, littleEndian_length]

/-- A tag whose memo is within the bound is read back from where it was written. -/
theorem deserialize_serialize {tag : DestinationTag} {data : ByteVector} {pos : UInt64}
    {back : Bytes} (within : pos.toNat ≤ data.size) (short : tag.memo.length ≤ maxMemoSize)
    (there : data.bytes.drop pos.toNat = tag.serialize ++ back) :
    deserialize data pos = some (tag, pos + UInt64.ofNat tag.serialize.length) := by
  have length := congrArg List.length there
  rw [List.length_drop, List.length_append, serialize_length, ← ByteVector.size] at length
  have fits := data.fits
  rw [← ByteVector.size] at fits
  rw [maxMemoSize] at short
  have fourWord : (4 : UInt64).toNat = 4 := rfl
  have sixWord : (6 : UInt64).toNat = 6 := rfl
  have four : (pos + 4).toNat = pos.toNat + 4 := toNat_add_of_fits (by omega)
  have six : (pos + 6).toNat = pos.toNat + 6 := toNat_add_of_fits (by omega)
  have memoLen : (UInt64.ofNat tag.memo.length).toNat = tag.memo.length :=
    UInt64.toNat_ofNat_of_lt' (by rw [UInt64.size]; omega)
  rw [serialize, List.append_assoc, List.append_assoc] at there
  have afterTag := drop_past _ there
  have afterLength := drop_past _ afterTag
  rw [littleEndian_length, ← four] at afterTag
  rw [littleEndian_length, littleEndian_length, Nat.add_assoc, ← six] at afterLength
  have isTag := readAt_of_there within there
  have isLength := readAt_of_there (by omega) afterTag
  have isMemo := readAt_of_there (by omega) afterLength
  rw [littleEndian_length] at isTag isLength
  have tagRead : UInt32.ofNat (ofLittleEndian (littleEndian 4 tag.tag.toNat)) = tag.tag := by
    have small : tag.tag.toNat < 256 ^ 4 := tag.tag.toNat_lt
    rw [ofLittleEndian_littleEndian, Nat.mod_eq_of_lt small, UInt32.ofNat_toNat]
  have lengthRead : ofLittleEndian (littleEndian 2 tag.memo.length) = tag.memo.length := by
    rw [ofLittleEndian_littleEndian, Nat.mod_eq_of_lt (by omega)]
  have header : ¬ pos + 6 > UInt64.ofNat data.size := by
    rw [past_iff_of_fits (by omega), sixWord]
    omega
  have whole : ¬ pos + 6 + UInt64.ofNat tag.memo.length > UInt64.ofNat data.size := by
    rw [past_iff_of_fits (by omega), six, memoLen]
    omega
  have moved : pos + 6 + UInt64.ofNat tag.memo.length =
      pos + UInt64.ofNat (serialize tag).length := by
    rw [serialize_length, UInt64.ofNat_add, UInt64.add_assoc]
    rfl
  rw [moved] at whole
  simp only [deserialize, if_neg header, isTag, isLength, Option.bind_eq_bind, Option.bind_some,
    lengthRead, moved, if_neg whole, isMemo, tagRead]

/-- The validator accepts short UTF-8 memos, and a valid tag is read back from where it was
written, up to its last byte. -/
theorem tags_validated_and_read_back (memo : Bytes) (tag : DestinationTag) (data : ByteVector)
    (pos : UInt64) (back : Bytes) :
    (TagValidator.validateMemo memo = true ↔ memo.length ≤ maxMemoSize ∧ IsUtf8 memo) ∧
      (tag.isValid = true → pos.toNat ≤ data.size →
        data.bytes.drop pos.toNat = tag.serialize ++ back →
          deserialize data pos = some (tag, pos + UInt64.ofNat tag.serialize.length)) := by
  refine ⟨TagValidator.validateMemo_iff memo, fun valid within there => ?_⟩
  have short := ((TagValidator.validateMemo_iff tag.memo).mp valid).1
  exact deserialize_serialize within short there

/-- A memo of one character of three bytes. -/
def euro : DestinationTag := ⟨7, [0xE2, 0x82, 0xAC]⟩

theorem tags_validated_and_read_back_euro :
    (TagValidator.validateMemo euro.memo = true ↔
        euro.memo.length ≤ maxMemoSize ∧ IsUtf8 euro.memo) ∧
      deserialize ⟨euro.serialize, by decide⟩ 0 =
        some (euro, 0 + UInt64.ofNat euro.serialize.length) := by
  have both := tags_validated_and_read_back euro.memo euro ⟨euro.serialize, by decide⟩ 0 []
  exact ⟨both.1, both.2 (by decide) (Nat.zero_le _) (List.append_nil _).symm⟩

end DestinationTag

end Parthenon.Settlement
