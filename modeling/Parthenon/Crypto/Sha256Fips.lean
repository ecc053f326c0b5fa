import Parthenon.Crypto.Sha256Laws
import Parthenon.Library.Fips180

namespace Parthenon.Crypto.SHA256

open Parthenon.Library

/-! # The hasher computes FIPS 180-4

The hasher's words are the standard's words as numbers.  Each operation keeps
that reading, so a round, a schedule, a block and a padded message do.
-/

/-! ## Operations on words -/

theorem rotr_toNat (x : Fips180.Word) {n : Nat} (inside : n < 32) :
    rotr x.toNat n = (x.rotateRight n).toNat := by
  have shifted : x.toNat >>> n < 2 ^ 32 := Nat.lt_of_le_of_lt (Nat.shiftRight_le _ _) x.isLt
  rw [rotr, Nat.or_mod_two_pow, Nat.mod_eq_of_lt shifted, BitVec.toNat_rotateRight,
    Nat.mod_eq_of_lt inside]

theorem ch_toNat (x y z : Fips180.Word) :
    ch x.toNat y.toNat z.toNat = (Fips180.ch x y z).toNat := by
  have complement : (~~~x).toNat = x.toNat ^^^ 0xffffffff := by
    rw [← BitVec.xor_allOnes, BitVec.toNat_xor]
    rfl
  rw [ch, Fips180.ch, BitVec.toNat_xor, BitVec.toNat_and, BitVec.toNat_and, complement]

theorem maj_toNat (x y z : Fips180.Word) :
    maj x.toNat y.toNat z.toNat = (Fips180.maj x y z).toNat := by
  simp only [maj, Fips180.maj, BitVec.toNat_xor, BitVec.toNat_and]

theorem bigSigma0_toNat (x : Fips180.Word) : bigSigma0 x.toNat = (Fips180.bigSigma0 x).toNat := by
  rw [bigSigma0, rotr_toNat x (by decide), rotr_toNat x (by decide), rotr_toNat x (by decide),
    Fips180.bigSigma0, BitVec.toNat_xor, BitVec.toNat_xor]

theorem bigSigma1_toNat (x : Fips180.Word) : bigSigma1 x.toNat = (Fips180.bigSigma1 x).toNat := by
  rw [bigSigma1, rotr_toNat x (by decide), rotr_toNat x (by decide), rotr_toNat x (by decide),
    Fips180.bigSigma1, BitVec.toNat_xor, BitVec.toNat_xor]

theorem smallSigma0_toNat (x : Fips180.Word) :
    smallSigma0 x.toNat = (Fips180.smallSigma0 x).toNat := by
  rw [smallSigma0, rotr_toNat x (by decide), rotr_toNat x (by decide), Fips180.smallSigma0,
    BitVec.toNat_xor, BitVec.toNat_xor, BitVec.toNat_ushiftRight]

theorem smallSigma1_toNat (x : Fips180.Word) :
    smallSigma1 x.toNat = (Fips180.smallSigma1 x).toNat := by
  rw [smallSigma1, rotr_toNat x (by decide), rotr_toNat x (by decide), Fips180.smallSigma1,
    BitVec.toNat_xor, BitVec.toNat_xor, BitVec.toNat_ushiftRight]

/-! ## Schedule -/

/-- The first words of a schedule as the hasher keeps them, newest first. -/
def scheduled (block : Nat → Fips180.Word) : Nat → List Word
  | 0 => []
  | count + 1 => (Fips180.schedule block count).toNat :: scheduled block count

theorem scheduled_getD (block : Nat → Fips180.Word) {count index : Nat} (inside : index < count) :
    (scheduled block count).getD index 0 = (Fips180.schedule block (count - 1 - index)).toNat := by
  induction count generalizing index with
  | zero => exact (Nat.not_lt_zero _ inside).elim
  | succ count ih =>
      cases index with
      | zero => rfl
      | succ index =>
          have older := ih (show index < count by omega)
          have position : count + 1 - 1 - (index + 1) = count - 1 - index := by omega
          rw [position]
          exact older

theorem extendSchedule_scheduled (block : Nat → Fips180.Word) (count : Nat) {known : Nat}
    (window : 16 ≤ known) :
    extendSchedule count (scheduled block known) = scheduled block (known + count) := by
  induction count generalizing known with
  | zero => rfl
  | succ count ih =>
      have next : (smallSigma1 ((scheduled block known).getD 1 0) + (scheduled block known).getD 6 0 +
          smallSigma0 ((scheduled block known).getD 14 0) + (scheduled block known).getD 15 0) %
            2 ^ 32 = (Fips180.schedule block known).toNat := by
        have recurrence : Fips180.schedule block known =
            Fips180.smallSigma1 (Fips180.schedule block (known - 2)) +
              Fips180.schedule block (known - 7) +
              Fips180.smallSigma0 (Fips180.schedule block (known - 15)) +
              Fips180.schedule block (known - 16) := by
          rw [Fips180.schedule, if_neg (by omega)]
        rw [scheduled_getD block (by omega), scheduled_getD block (by omega),
          scheduled_getD block (by omega), scheduled_getD block (by omega), smallSigma0_toNat,
          smallSigma1_toNat, recurrence]
        simp only [BitVec.toNat_add, Nat.sub_sub, Nat.mod_add_mod]
      have longer := ih (show 16 ≤ known + 1 by omega)
      rw [extendSchedule, next, show known + (count + 1) = known + 1 + count by omega]
      exact longer

theorem scheduled_reverse (block : Nat → Fips180.Word) (count : Nat) :
    (scheduled block count).reverse =
      (List.range count).map fun t => (Fips180.schedule block t).toNat := by
  induction count with
  | zero => rfl
  | succ count ih => rw [scheduled, List.reverse_cons, ih, List.range_succ, List.map_append]; rfl

theorem roundConstants_eq : roundConstants = (List.range 64).map fun t => (Fips180.k t).toNat := by
  decide +kernel

/-! ## Rounds -/

namespace State

/-- The standard's words as the hasher's. -/
def ofWords (s : Fips180.Variables) : State :=
  { a := s.a.toNat, b := s.b.toNat, c := s.c.toNat, d := s.d.toNat,
    e := s.e.toNat, f := s.f.toNat, g := s.g.toNat, h := s.h.toNat }

theorem initial_eq : initial = ofWords .initial := by decide +kernel

theorem round_ofWords (s : Fips180.Variables) (k w : Fips180.Word) :
    (ofWords s).round (k.toNat, w.toNat) = ofWords (s.round k w) := by
  simp only [round, ofWords, Fips180.Variables.round, bigSigma0_toNat, bigSigma1_toNat, ch_toNat,
    maj_toNat, BitVec.toNat_add, Nat.mod_add_mod, Nat.add_mod_mod]

theorem rounds_ofWords (s : Fips180.Variables) (block : Nat → Fips180.Word) (count : Nat) :
    ((List.range count).map fun t =>
        ((Fips180.k t).toNat, (Fips180.schedule block t).toNat)).foldl round (ofWords s) =
      ofWords (s.rounds block count) := by
  induction count with
  | zero => rfl
  | succ count ih =>
      rw [List.range_succ, List.map_append, List.foldl_append, ih, Fips180.Variables.rounds,
        ← round_ofWords]
      rfl

theorem plus_ofWords (s r : Fips180.Variables) :
    (ofWords s).plus (ofWords r) = ofWords (r.add s) := by
  simp only [plus, ofWords, Fips180.Variables.add, BitVec.toNat_add, Nat.add_comm]

/-- A block is compressed as the standard compresses its words. -/
theorem transform_ofWords (s : Fips180.Variables) {chunk : Bytes} {block : Nat → Fips180.Word}
    (words : readBE32 chunk = (List.range 16).map fun t => (block t).toNat) :
    (ofWords s).transform chunk = ofWords (s.compress block) := by
  have input : (readBE32 chunk).reverse = scheduled block 16 := by
    have first : (readBE32 chunk) = (List.range 16).map fun t => (Fips180.schedule block t).toNat := by
      rw [words]
      refine List.map_congr_left fun t inside => ?_
      rw [Fips180.schedule, if_pos (List.mem_range.mp inside)]
    rw [first, ← scheduled_reverse, List.reverse_reverse]
  have pairs : roundConstants.zip (extendSchedule 48 (readBE32 chunk).reverse).reverse =
      (List.range 64).map fun t => ((Fips180.k t).toNat, (Fips180.schedule block t).toNat) := by
    have full : extendSchedule 48 (scheduled block 16) = scheduled block 64 :=
      extendSchedule_scheduled block 48 (Nat.le_refl 16)
    rw [input, full, scheduled_reverse, roundConstants_eq, List.zip_map']
  rw [transform_eq_plus, pairs, rounds_ofWords, plus_ofWords, Fips180.Variables.compress]

end State

/-! ## Messages -/

theorem bigEndian_four (word : Nat) : Fips180.bigEndian 4 word = writeBE32 word := by
  simp only [Fips180.bigEndian, littleEndian, writeBE32, List.reverse_cons, List.reverse_nil,
    List.nil_append, List.cons_append, Nat.shiftRight_eq_div_pow, Nat.div_div_eq_div_mul]

theorem bigEndian_eight (value : Nat) : Fips180.bigEndian 8 value = writeBE64 value := by
  simp only [Fips180.bigEndian, littleEndian, writeBE64, List.reverse_cons, List.reverse_nil,
    List.nil_append, List.cons_append, Nat.shiftRight_eq_div_pow, Nat.div_div_eq_div_mul]

/-- The hasher pads a message as the standard does. -/
theorem padded_eq (message : Fips180.Message) :
    message.bytes ++ padding message.bytes.length = message.padded := by
  have zeroCount := Fips180.zeros_eq message.bytes.length
  have inBlock := Nat.mod_lt message.bytes.length (show 0 < 64 by decide)
  have bits : message.bytes.length * 8 % 2 ^ 64 = message.bitLength.toNat := by
    have short := message.short
    rw [Fips180.Message.bitLength, BitVec.toNat_ofNatLT, Nat.mul_comm]
    exact Nat.mod_eq_of_lt (by omega)
  have marked : (0x80 :: List.replicate 127 0 : Bytes).take
        (if message.bytes.length % 64 < 56 then 56 - message.bytes.length % 64
          else 120 - message.bytes.length % 64) =
      0x80 :: List.replicate (Fips180.zeros message.bytes.length) 0 := by
    have count : (if message.bytes.length % 64 < 56 then 56 - message.bytes.length % 64
          else 120 - message.bytes.length % 64) = Fips180.zeros message.bytes.length + 1 := by
      split <;> omega
    rw [count, List.take_succ_cons, List.take_replicate, Nat.min_eq_left (by omega)]
  rw [padding, Fips180.Message.padded, bigEndian_eight, List.append_assoc, ← bits, marked]

theorem ofBigEndian_four (a b c d : UInt8) :
    ((a.toNat <<< 24) ||| (b.toNat <<< 16) ||| (c.toNat <<< 8) ||| d.toNat) =
      Fips180.ofBigEndian [a, b, c, d] := by
  have fitsB := b.toNat_lt
  have fitsC := c.toNat_lt
  have fitsD := d.toNat_lt
  rw [Nat.or_assoc, Nat.or_assoc, ← Nat.shiftLeft_add_eq_or_of_lt (i := 8) (by omega),
    ← Nat.shiftLeft_add_eq_or_of_lt (i := 16) (by omega),
    ← Nat.shiftLeft_add_eq_or_of_lt (i := 24) (by omega)]
  simp only [Fips180.ofBigEndian, List.reverse_cons, List.reverse_nil, List.nil_append,
    List.cons_append, ofLittleEndian, Nat.shiftLeft_eq]
  omega

/-- Word `t` of a string is its `t`-th group of four bytes. -/
theorem readBE32_eq (data : Bytes) :
    readBE32 data = (List.range (data.length / 4)).map fun t =>
      Fips180.ofBigEndian ((data.drop (4 * t)).take 4) := by
  induction data using readBE32.induct with
  | case1 a b c d rest ih =>
      have count : (a :: b :: c :: d :: rest).length / 4 = rest.length / 4 + 1 := by
        simp only [List.length_cons]
        omega
      rw [readBE32, ih, count, List.range_succ_eq_map, List.map_cons, List.map_map,
        ofBigEndian_four]
      rfl
  | case2 data short =>
      have few := length_lt_four short
      rw [readBE32, Nat.div_eq_of_lt few]
      · rfl
      · exact short

/-- The words of a block are those the standard reads. -/
theorem readBE32_block (message : Fips180.Message) {block : Nat}
    (inside : 64 * (block + 1) ≤ message.padded.length) :
    readBE32 ((message.padded.drop (64 * block)).take 64) =
      (List.range 16).map fun t => (message.word block t).toNat := by
  have whole : ((message.padded.drop (64 * block)).take 64).length / 4 = 16 := by
    rw [List.length_take, List.length_drop]
    omega
  rw [readBE32_eq, whole]
  refine List.map_congr_left fun t inBlock => ?_
  have early := List.mem_range.mp inBlock
  have group : ((((message.padded.drop (64 * block)).take 64).drop (4 * t)).take 4) =
      (message.padded.drop (64 * block + 4 * t)).take 4 := by
    rw [List.drop_take, List.take_take, List.drop_drop, Nat.min_eq_left (by omega)]
  have fits := ofLittleEndian_lt ((message.padded.drop (64 * block + 4 * t)).take 4).reverse
  have fourBytes : ((message.padded.drop (64 * block + 4 * t)).take 4).reverse.length = 4 := by
    rw [List.length_reverse, List.length_take, List.length_drop]
    omega
  rw [fourBytes] at fits
  rw [group, Fips180.Message.word, BitVec.toNat_ofNat, Fips180.ofBigEndian]
  exact (Nat.mod_eq_of_lt fits).symm

theorem transformBlocks_hashValue (message : Fips180.Message) {count : Nat}
    (inside : 64 * count ≤ message.padded.length) :
    State.initial.transformBlocks message.padded count = .ofWords (message.hashValue count) := by
  induction count with
  | zero => exact State.initial_eq
  | succ count ih =>
      have words := readBE32_block message inside
      rw [State.transformBlocks, ih (by omega), Fips180.Message.hashValue]
      exact State.transform_ofWords _ words

theorem digest_ofWords (s : Fips180.Variables) : (State.ofWords s).digest.bytes = s.digest := by
  simp only [State.digest, State.ofWords, Fips180.Variables.digest, List.flatMap_cons,
    List.flatMap_nil, bigEndian_four, List.append_assoc, List.append_nil]

theorem writes_hold (chunks : List Bytes) {hasher : SHA256} {data : Bytes}
    (holds : hasher.Holds data) : (chunks.foldl write hasher).Holds (data ++ chunks.flatten) := by
  induction chunks generalizing hasher data with
  | nil =>
      rw [List.flatten_nil, List.append_nil]
      exact holds
  | cons chunk chunks ih =>
      have later := ih (holds.write chunk)
      rw [List.append_assoc] at later
      exact later

/-- However a message is cut into writes, the hasher answers its SHA-256 digest and is fresh. -/
theorem finalize_writes_fips (chunks : List Bytes) (short : chunks.flatten.length < 2 ^ 61) :
    (chunks.foldl write reset).finalize.1.bytes = Fips180.Message.sha256 ⟨chunks.flatten, short⟩ ∧
      (chunks.foldl write reset).finalize.2 = reset := by
  have holds : (chunks.foldl write reset).Holds chunks.flatten := writes_hold chunks reset_holds
  have padded := padded_eq ⟨chunks.flatten, short⟩
  dsimp only at padded
  refine ⟨?_, rfl⟩
  rw [holds.finalize, padded, transformBlocks_hashValue _ (Nat.mul_div_le _ _), digest_ofWords]
  rfl

theorem finalize_writes_fips_abc :
    ([[0x61], [], [0x62, 0x63]].foldl write reset).finalize.1.bytes =
        Fips180.Message.sha256 ⟨[0x61, 0x62, 0x63], by decide⟩ ∧
      ([[0x61], [], [0x62, 0x63]].foldl write reset).finalize.2 = reset :=
  finalize_writes_fips [[0x61], [], [0x62, 0x63]] (by decide)

end Parthenon.Crypto.SHA256
