import Parthenon.Consensus.Retargeting
import Parthenon.Library.Rounding

namespace Parthenon.Consensus.Difficulty

open Parthenon.Library Parthenon.Crypto

/-! # Targets through their compact bits

The encoder takes the leading bytes of a target as its mantissa.  A target of one
or two bytes is not shifted up to the mantissa's place, from where the decoder
shifts it down, and a target with its highest bit set is given an exponent the
decoder refuses; all others keep their leading bytes.
-/

variable (target : Hash)

def valueOf : Nat := ofLittleEndian target.bytes

/-- The bytes up to the first one that is not zero, most significant first. -/
def byteLength : Nat := significantBytes target 32

def leadingByte : UInt8 := target.bytes.getD (byteLength target - 1) 0

def keptBytes : Nat := if leadingByte target ≥ 0x80 then 2 else 3

/-- The target with every byte after the kept ones cleared. -/
def keepLeading : Hash :=
  ⟨target.bytes.mapIdx fun index byte =>
    if byteLength target ≤ index + keptBytes target then byte else 0, by
      rw [List.length_mapIdx, target.length_eq]⟩

def throughCompact : Hash := compactToBits256 (bits256ToCompact target)

/-- What the compact bits should keep of a target. -/
structure KeepsLeadingBytes : Prop where
  bytes : throughCompact target = keepLeading target
  atMost : valueOf (throughCompact target) ≤ valueOf target
  zero : valueOf (throughCompact target) = 0 → valueOf target = 0
  monotone : ∀ smaller, valueOf smaller ≤ valueOf target →
    valueOf (throughCompact smaller) ≤ valueOf (throughCompact target)

theorem valueOf_lt : valueOf target < 256 ^ 32 := target.length_eq ▸ ofLittleEndian_lt target.bytes

theorem valueOf_inj {left right : Hash} (same : valueOf left = valueOf right) : left = right := by
  have leftBytes := littleEndian_ofLittleEndian left.bytes
  have rightBytes := littleEndian_ofLittleEndian right.bytes
  rw [left.length_eq] at leftBytes
  rw [right.length_eq] at rightBytes
  rw [valueOf, valueOf] at same
  exact FixedBytes.ext (by rw [← leftBytes, same, rightBytes])

variable {target}

/-! ## The leading bytes -/

theorem significantBytes_spec {count : Nat} (below : valueOf target < 256 ^ count) :
    significantBytes target count ≤ count ∧
      valueOf target < 256 ^ significantBytes target count ∧
      (significantBytes target count = 0 ∨
        256 ^ (significantBytes target count - 1) ≤ valueOf target) := by
  induction count with
  | zero => exact ⟨Nat.le_refl 0, below, .inl rfl⟩
  | succ count ih =>
      have digit := getD_toNat target.bytes count
      have narrow : valueOf target / 256 ^ count < 256 := by
        rw [Nat.div_lt_iff_lt_mul (Nat.pow_pos (by decide)), ← Nat.pow_succ']
        exact below
      rw [significantBytes]
      by_cases clear : target.bytes.getD count 0 = 0
      · rw [if_pos clear]
        rw [clear, ← valueOf, Nat.mod_eq_of_lt narrow] at digit
        have less : valueOf target < 256 ^ count :=
          (Nat.div_eq_zero_iff_lt (Nat.pow_pos (by decide))).mp digit.symm
        obtain ⟨within, most, least⟩ := ih less
        exact ⟨Nat.le_succ_of_le within, most, least⟩
      · rw [if_neg clear]
        refine ⟨Nat.le_refl _, below, .inr ?_⟩
        rw [Nat.add_sub_cancel]
        refine Nat.not_lt.mp fun less => clear ?_
        rw [← valueOf, Nat.div_eq_of_lt less] at digit
        exact UInt8.toNat_inj.mp digit

theorem byteLength_spec (target : Hash) : byteLength target ≤ 32 ∧ valueOf target < 256 ^ byteLength target ∧
    (byteLength target = 0 ∨ 256 ^ (byteLength target - 1) ≤ valueOf target) :=
  significantBytes_spec (valueOf_lt target)

theorem byteLength_eq_zero_iff : byteLength target = 0 ↔ valueOf target = 0 := by
  obtain ⟨_, most, least⟩ := byteLength_spec target
  constructor
  · intro none_
    rw [none_] at most
    omega
  · intro none_
    refine least.resolve_right fun reaches => ?_
    have := Nat.pow_pos (n := byteLength target - 1) (show 0 < 256 by decide)
    omega

theorem leadingByte_toNat (target : Hash) :
    (leadingByte target).toNat = valueOf target / 256 ^ (byteLength target - 1) := by
  obtain ⟨_, most, least⟩ := byteLength_spec target
  rw [leadingByte, getD_toNat, ← valueOf]
  refine Nat.mod_eq_of_lt ?_
  rw [Nat.div_lt_iff_lt_mul (Nat.pow_pos (by decide)), ← Nat.pow_succ']
  refine Nat.lt_of_lt_of_le most (Nat.pow_le_pow_right (by decide) (by omega))

theorem valueOf_keepLeading :
    valueOf (keepLeading target) =
      clearBelow 256 (byteLength target - keptBytes target) (valueOf target) := by
  have within := (byteLength_spec target).1
  have cut : (keepLeading target).bytes =
      List.replicate (byteLength target - keptBytes target) 0 ++
        target.bytes.drop (byteLength target - keptBytes target) := by
    apply List.ext_getElem
    · simp only [keepLeading, List.length_mapIdx, List.length_append, List.length_replicate,
        List.length_drop, target.length_eq]
      omega
    · intro index left right
      simp only [keepLeading, List.getElem_mapIdx, List.getElem_append, List.length_replicate,
        List.getElem_replicate, List.getElem_drop]
      by_cases below : index < byteLength target - keptBytes target
      · rw [if_neg (by omega), dif_pos below]
      · rw [if_pos (by omega), dif_neg below]
        congr 1
        omega
  rw [valueOf, cut, ofLittleEndian_append, ofLittleEndian_zeros, ofLittleEndian_drop,
    List.length_replicate, Nat.zero_add, Nat.mul_comm]
  rfl

/-! ## The mantissa -/

/-- The byte at a place as the encoder reads it. -/
def byteAt (target : Hash) (index : Nat) : UInt32 := (target.bytes.getD index 0).toUInt32

theorem byteAt_toNat (target : Hash) (index : Nat) :
    (byteAt target index).toNat = valueOf target / 256 ^ index % 256 := by
  rw [byteAt, UInt8.toNat_toUInt32, getD_toNat, valueOf]

theorem joined_toNat {high : UInt32} (fits : high.toNat < 2 ^ 24) (target : Hash) (index : Nat) :
    (high <<< 8 ||| byteAt target index).toNat =
      high.toNat * 256 + valueOf target / 256 ^ index % 256 := by
  have low : valueOf target / 256 ^ index % 256 < 2 ^ 8 := Nat.mod_lt _ (by decide)
  rw [UInt32.toNat_or, UInt32.toNat_shiftLeft, byteAt_toNat, show (8 : UInt32).toNat % 32 = 8 from rfl,
    Nat.shiftLeft_eq, Nat.mod_eq_of_lt (by omega), Nat.mul_comm, ← Nat.two_pow_add_eq_or_of_lt low]

/-- One byte more of a number. -/
theorem quotient_step (value place : Nat) :
    value / 256 ^ (place + 1) * 256 + value / 256 ^ place % 256 = value / 256 ^ place := by
  rw [Nat.pow_succ, ← Nat.div_div_eq_div_mul]
  exact Nat.div_add_mod' (value / 256 ^ place) 256

/-- The mantissa before the sign bit is looked at. -/
def mantissaBits (target : Hash) : UInt32 :=
  let exponent := byteLength target
  if exponent ≥ 3 then
    (byteAt target (exponent - 1) <<< 8 ||| byteAt target (exponent - 2)) <<< 8 |||
      byteAt target (exponent - 3)
  else if exponent = 2 then byteAt target (exponent - 1) <<< 8 ||| byteAt target (exponent - 2)
  else byteAt target 0

theorem bits256ToCompact_eq (target : Hash) :
    bits256ToCompact target =
      if byteLength target = 0 then (0 : UInt32)
      else if mantissaBits target &&& 0x00800000 ≠ 0 then
        UInt32.ofNat (byteLength target + 1) <<< 24 ||| mantissaBits target >>> 8
      else UInt32.ofNat (byteLength target) <<< 24 ||| mantissaBits target := rfl

/-- The mantissa holds the first three bytes, or the whole of a shorter target. -/
theorem mantissaBits_toNat (target : Hash) :
    (mantissaBits target).toNat = valueOf target / 256 ^ (byteLength target - 3) := by
  obtain ⟨within, most, _⟩ := byteLength_spec target
  have top (place : Nat) (last : byteLength target ≤ place + 1) :
      valueOf target / 256 ^ place < 256 := by
    rw [Nat.div_lt_iff_lt_mul (Nat.pow_pos (by decide)), ← Nat.pow_succ']
    exact Nat.lt_of_lt_of_le most (Nat.pow_le_pow_right (by decide) last)
  unfold mantissaBits
  dsimp only
  by_cases long : byteLength target ≥ 3
  · obtain ⟨place, isPlace⟩ : ∃ place, byteLength target = place + 3 :=
      ⟨byteLength target - 3, by omega⟩
    have first : (byteAt target (place + 2)).toNat = valueOf target / 256 ^ (place + 2) := by
      rw [byteAt_toNat, Nat.mod_eq_of_lt (top _ (by omega))]
    have small := top (place + 2) (by omega)
    have second : (byteAt target (place + 2) <<< 8 ||| byteAt target (place + 1)).toNat =
        valueOf target / 256 ^ (place + 1) := by
      rw [joined_toNat (by omega), first, quotient_step]
    have third : valueOf target / 256 ^ (place + 2) * 256 + valueOf target / 256 ^ (place + 1) % 256 =
        valueOf target / 256 ^ (place + 1) := quotient_step (valueOf target) (place + 1)
    have byte : valueOf target / 256 ^ (place + 1) % 256 < 256 := Nat.mod_lt _ (by decide)
    rw [if_pos long, isPlace, show place + 3 - 1 = place + 2 by omega,
      show place + 3 - 2 = place + 1 by omega, Nat.add_sub_cancel,
      joined_toNat (by rw [second]; omega), second, quotient_step]
  · rw [if_neg long, show byteLength target - 3 = 0 by omega, Nat.pow_zero, Nat.div_one]
    by_cases two : byteLength target = 2
    · have small := top 1 (by omega)
      have first : (byteAt target 1).toNat = valueOf target / 256 ^ 1 := by
        rw [byteAt_toNat, Nat.mod_eq_of_lt small]
      rw [if_pos two, two, joined_toNat (by rw [first]; omega), first]
      exact (quotient_step (valueOf target) 0).trans (Nat.div_one _)
    · have small := top 0 (by omega)
      rw [if_neg two, byteAt_toNat, Nat.mod_eq_of_lt small, Nat.pow_zero, Nat.div_one]

theorem mantissaBits_lt (target : Hash) : (mantissaBits target).toNat < 0x1000000 := by
  obtain ⟨_, most, _⟩ := byteLength_spec target
  rw [mantissaBits_toNat, Nat.div_lt_iff_lt_mul (Nat.pow_pos (by decide))]
  refine Nat.lt_of_lt_of_le most ?_
  rw [show 0x1000000 = 256 ^ 3 from rfl, ← Nat.pow_add]
  exact Nat.pow_le_pow_right (by decide) (by omega)

theorem masked {mantissa : UInt32} (fits : mantissa.toNat < 0x1000000) :
    UInt32.ofNat (mantissa.toNat &&& 0x00FFFFFF) = mantissa := by
  rw [show 0x00FFFFFF = 2 ^ 24 - 1 from rfl, Nat.and_two_pow_sub_one_eq_mod,
    Nat.mod_eq_of_lt fits, UInt32.ofNat_toNat]

theorem signBit_iff {mantissa : UInt32} (fits : mantissa.toNat < 0x1000000) :
    mantissa &&& 0x00800000 ≠ 0 ↔ 0x800000 ≤ mantissa.toNat := by
  have zero : mantissa &&& 0x00800000 = 0 ↔ mantissa.toNat &&& 0x800000 = 0 := by
    rw [← UInt32.toNat_inj, UInt32.toNat_and]
    rfl
  rw [ne_eq, zero, bit_eq_zero_iff fits, Nat.not_lt]

/-! ## The way back -/

theorem targetOf_large {compact : UInt32} (large : 32 < exponentOf compact) :
    targetOf compact = 0 := by
  rw [targetOf, compactToBits256_eq, if_neg (by omega), if_neg (by omega), if_neg (by omega)]
  exact ofLittleEndian_zeros 32

/-- A long target in units of its last mantissa byte. -/
theorem long_bounds (long : 3 ≤ byteLength target) :
    ∃ place, byteLength target = place + 3 ∧ place ≤ 29 ∧ 0x10000 * 256 ^ place ≤ valueOf target ∧
      valueOf target < 0x1000000 * 256 ^ place := by
  obtain ⟨within, most, least⟩ := byteLength_spec target
  obtain ⟨place, isPlace⟩ : ∃ place, byteLength target = place + 3 :=
    ⟨byteLength target - 3, by omega⟩
  have reaches := least.resolve_left (by omega)
  rw [isPlace, show place + 3 - 1 = 2 + place by omega, Nat.pow_add] at reaches
  rw [isPlace, Nat.add_comm, Nat.pow_add] at most
  exact ⟨place, isPlace, by omega, reaches, most⟩

/-- Two bytes are kept where the sign bit of the mantissa is set. -/
theorem keptBytes_eq {place : Nat} (isPlace : byteLength target = place + 3) :
    keptBytes target = if 0x800000 * 256 ^ place ≤ valueOf target then 2 else 3 := by
  have leading := leadingByte_toNat target
  have unit : 0x80 * 256 ^ (byteLength target - 1) = 0x800000 * 256 ^ place := by
    rw [isPlace, show place + 3 - 1 = 2 + place by omega, Nat.pow_add, ← Nat.mul_assoc]
  have signed : leadingByte target ≥ 0x80 ↔ 0x800000 * 256 ^ place ≤ valueOf target := by
    rw [ge_iff_le, UInt8.le_iff_toNat_le, leading, show (0x80 : UInt8).toNat = 0x80 from rfl,
      Nat.le_div_iff_mul_le (Nat.pow_pos (by decide)), unit]
  rw [keptBytes]
  exact if_congr signed rfl rfl

/-- What the code of a short target reads back as. -/
theorem throughCompact_short (short : byteLength target < 3) :
    valueOf (throughCompact target) = valueOf target / 256 ^ (3 - byteLength target) := by
  have sameBits : valueOf (throughCompact target) = targetOf (bits256ToCompact target) := rfl
  by_cases none_ : byteLength target = 0
  · rw [sameBits, bits256ToCompact_eq, if_pos none_, byteLength_eq_zero_iff.mp none_, Nat.zero_div]
    rfl
  · have bits := mantissaBits_toNat target
    rw [show byteLength target - 3 = 0 by omega, Nat.pow_zero, Nat.div_one] at bits
    have fits := mantissaBits_lt target
    obtain ⟨_, most, _⟩ := byteLength_spec target
    have small : 256 ^ byteLength target ≤ 256 ^ 2 := Nat.pow_le_pow_right (by decide) (by omega)
    have unsigned : ¬ mantissaBits target &&& 0x00800000 ≠ 0 := by
      rw [signBit_iff fits]
      omega
    have exponentBack := exponentOf_packed (show byteLength target < 256 by omega) fits
    have mantissaBack := mantissaOf_packed (show byteLength target < 256 by omega) fits
    rw [masked fits] at exponentBack mantissaBack
    rw [sameBits, bits256ToCompact_eq, if_neg none_, if_neg unsigned,
      targetOf_short (by rw [exponentBack]; exact none_) (by rw [exponentBack]; omega),
      exponentBack, mantissaBack, bits]

/-- What the code of a long target reads back as. -/
theorem throughCompact_long (long : 3 ≤ byteLength target) :
    valueOf (throughCompact target) =
      if 2 ^ 255 ≤ valueOf target then 0
      else clearBelow 256 (byteLength target - keptBytes target) (valueOf target) := by
  have sameBits : valueOf (throughCompact target) = targetOf (bits256ToCompact target) := rfl
  obtain ⟨place, isPlace, within, least, most⟩ := long_bounds long
  have some_ : ¬ byteLength target = 0 := by omega
  have fits := mantissaBits_lt target
  have bits := mantissaBits_toNat target
  rw [isPlace, Nat.add_sub_cancel] at bits
  have signed : 0x800000 ≤ (mantissaBits target).toNat ↔
      0x800000 * 256 ^ place ≤ valueOf target := by
    rw [bits, Nat.le_div_iff_mul_le (Nat.pow_pos (by decide))]
  have kept := keptBytes_eq isPlace
  by_cases sign : 0x800000 * 256 ^ place ≤ valueOf target
  · rw [if_pos sign] at kept
    have shifted : (mantissaBits target >>> 8).toNat = (mantissaBits target).toNat / 256 := by
      rw [UInt32.toNat_shiftRight, Nat.shiftRight_eq_div_pow]
      rfl
    have shiftedFits : (mantissaBits target >>> 8).toNat < 0x1000000 := by omega
    rw [sameBits, bits256ToCompact_eq, if_neg some_,
      if_pos ((signBit_iff fits).mpr (signed.mpr sign)), isPlace, kept, ← masked shiftedFits]
    by_cases top : place = 29
    · rw [top] at sign
      rw [if_pos (show 2 ^ 255 ≤ valueOf target by omega), targetOf_large]
      rw [exponentOf_packed (by omega) shiftedFits]
      omega
    · have below : (0x1000000 : Nat) * 256 ^ place ≤ 0x1000000 * 256 ^ 28 :=
        Nat.mul_le_mul_left _ (Nat.pow_le_pow_right (by decide) (by omega))
      rw [if_neg (by omega), targetOf_packed (by omega) (by omega) shiftedFits, shifted, bits,
        Nat.div_div_eq_div_mul, ← Nat.pow_succ, clearBelow]
      rfl
  · rw [if_neg sign] at kept
    have below : (0x800000 : Nat) * 256 ^ place ≤ 0x800000 * 256 ^ 29 :=
      Nat.mul_le_mul_left _ (Nat.pow_le_pow_right (by decide) within)
    have unsigned : ¬ mantissaBits target &&& 0x00800000 ≠ 0 := by
      rw [signBit_iff fits, signed]
      exact sign
    rw [sameBits, bits256ToCompact_eq, if_neg some_, if_neg unsigned, isPlace, kept, ← masked fits,
      if_neg (by omega), targetOf_packed (by omega) (by omega) fits, bits]
    rfl

/-- The place from which on a long target is kept. -/
theorem kept_normal (long : 3 ≤ byteLength target) :
    Normal 256 0x8000 (byteLength target - keptBytes target) (valueOf target) := by
  obtain ⟨place, isPlace, _, least, most⟩ := long_bounds long
  have kept := keptBytes_eq isPlace
  have step := Nat.pow_succ' (m := 256) (n := place)
  have next := Nat.pow_succ' (m := 256) (n := place + 1)
  by_cases sign : 0x800000 * 256 ^ place ≤ valueOf target
  · rw [kept, if_pos sign, isPlace]
    exact ⟨.inr (by rw [show place + 3 - 2 = place + 1 by omega]; omega),
      by rw [show place + 3 - 2 + 1 = place + 1 + 1 by omega]; omega⟩
  · rw [kept, if_neg sign, isPlace, Nat.add_sub_cancel]
    exact ⟨.inr (by omega), by omega⟩

theorem long_iff : 3 ≤ byteLength target ↔ 2 ^ 16 ≤ valueOf target := by
  obtain ⟨_, most, _⟩ := byteLength_spec target
  constructor
  · intro long
    obtain ⟨place, _, _, least, _⟩ := long_bounds long
    have unit : 1 ≤ 256 ^ place := Nat.pow_pos (by decide)
    omega
  · intro reaches
    refine Nat.not_lt.mp fun short => ?_
    have : 256 ^ byteLength target ≤ 256 ^ 2 := Nat.pow_le_pow_right (by decide) (by omega)
    omega

theorem throughCompact_le (target : Hash) : valueOf (throughCompact target) ≤ valueOf target := by
  by_cases long : 3 ≤ byteLength target
  · rw [throughCompact_long long]
    split
    · exact Nat.zero_le _
    · exact clearBelow_le 256 _ _
  · rw [throughCompact_short (Nat.not_le.mp long)]
    exact Nat.div_le_self _ _

section Kept

variable (long : 3 ≤ byteLength target) (clear : valueOf target < 2 ^ 255)

include long clear

theorem throughCompact_kept :
    valueOf (throughCompact target) =
      clearBelow 256 (byteLength target - keptBytes target) (valueOf target) := by
  rw [throughCompact_long long, if_neg (Nat.not_le.mpr clear)]

/-- A kept target stays above the short ones. -/
theorem le_throughCompact : 2 ^ 16 ≤ valueOf (throughCompact target) := by
  rw [throughCompact_kept long clear]
  have reaches := long_iff.mp long
  rcases Nat.eq_zero_or_pos (byteLength target - keptBytes target) with whole | cut
  · rw [whole, clearBelow_zero]
    exact reaches
  · have least := (kept_normal long).least.resolve_left (by omega)
    refine Nat.le_trans ?_ (le_clearBelow (by decide) least)
    exact Nat.mul_le_mul_left 0x8000
      (Nat.le_trans (by decide : 2 ≤ 256 ^ 1) (Nat.pow_le_pow_right (by decide) cut))

theorem throughCompact_mono {smaller : Hash} (ordered : valueOf smaller ≤ valueOf target) :
    valueOf (throughCompact smaller) ≤ valueOf (throughCompact target) := by
  by_cases alsoLong : 3 ≤ byteLength smaller
  · rw [throughCompact_kept alsoLong (Nat.lt_of_le_of_lt ordered clear),
      throughCompact_kept long clear]
    exact clearBelow_mono (by decide) (kept_normal alsoLong) (kept_normal long) ordered
  · have short : valueOf smaller < 2 ^ 16 := Nat.not_le.mp (mt long_iff.mpr alsoLong)
    exact (throughCompact_le smaller).trans (short.le.trans (le_throughCompact long clear))

end Kept

/-- The compact bits keep the leading bytes exactly of zero and of the targets from three
bytes on whose highest bit is clear. -/
theorem keepsLeadingBytes_iff (target : Hash) :
    KeepsLeadingBytes target ↔
      valueOf target = 0 ∨ 2 ^ 16 ≤ valueOf target ∧ valueOf target < 2 ^ 255 := by
  constructor
  · intro keeps
    by_cases long : 3 ≤ byteLength target
    · refine .inr ⟨long_iff.mp long, Nat.not_le.mp fun high => ?_⟩
      have lost : valueOf (throughCompact target) = 0 := by
        rw [throughCompact_long long, if_pos high]
      have := keeps.zero lost
      omega
    · have back := throughCompact_short (Nat.not_le.mp long)
      have whole : byteLength target - keptBytes target = 0 := by
        unfold keptBytes
        split <;> omega
      rw [keeps.bytes, valueOf_keepLeading, whole, clearBelow_zero] at back
      refine .inl (Nat.eq_zero_of_not_pos fun positive => ?_)
      have less : valueOf target / 256 ^ (3 - byteLength target) < valueOf target :=
        Nat.div_lt_self positive (Nat.one_lt_pow (by omega) (by decide))
      omega
  · intro kept
    rcases kept with none_ | ⟨reaches, clear⟩
    · have below (smaller : Hash) (ordered : valueOf smaller ≤ valueOf target) :
          valueOf (throughCompact smaller) = 0 := by
        have := throughCompact_le smaller
        omega
      refine ⟨valueOf_inj ?_, throughCompact_le target, fun _ => none_, ?_⟩
      · rw [below target (Nat.le_refl _), valueOf_keepLeading, none_]
        simp [clearBelow]
      · intro smaller ordered
        rw [below smaller ordered]
        exact Nat.zero_le _
    · have long := long_iff.mpr reaches
      have back := throughCompact_kept long clear
      refine ⟨valueOf_inj ?_, throughCompact_le target, ?_, fun _ => throughCompact_mono long clear⟩
      · rw [back, valueOf_keepLeading]
      · intro lost
        have := le_throughCompact long clear
        omega

/-- The least target is lost. -/
theorem one_not_kept : ¬ ∀ target, KeepsLeadingBytes target := by
  intro claim
  have lost := (claim ⟨1 :: List.replicate 31 0, rfl⟩).zero
  revert lost
  decide

end Parthenon.Consensus.Difficulty
