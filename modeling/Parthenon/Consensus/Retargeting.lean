import Mathlib.Data.Nat.Bitwise
import Parthenon.Consensus.Target

namespace Parthenon.Consensus.Difficulty

open Parthenon.Library

/-! # Retargeting

The scaled mantissa is normalised without a change of value below the sign bit,
and loses its last byte from there on.  An exponent that would pass 32 stays at
32, where the target is 256 times too small.
-/

section Normalization

variable {exponent mantissa : Nat}

theorem shiftDown_small (bytes : Nat) (small : mantissa < 0x1000000) :
    shiftDown bytes exponent mantissa = (exponent, mantissa) := by
  cases bytes with
  | zero => rfl
  | succ bytes => rw [shiftDown, if_neg (by omega)]

/-- What shifting up leaves: the number is the same, and a moved mantissa ends in a zero byte. -/
theorem shiftUp_spec (low : 3 ≤ exponent) (small : mantissa < 0x1000000) :
    3 ≤ (shiftUp exponent mantissa).1 ∧ (shiftUp exponent mantissa).2 < 0x1000000 ∧
      (shiftUp exponent mantissa).2 * 256 ^ ((shiftUp exponent mantissa).1 - 3) =
        mantissa * 256 ^ (exponent - 3) ∧
      (shiftUp exponent mantissa = (exponent, mantissa) ∨
        (shiftUp exponent mantissa).1 < exponent ∧ 256 ∣ (shiftUp exponent mantissa).2) := by
  induction exponent generalizing mantissa with
  | zero => omega
  | succ exponent ih =>
      rw [shiftUp]
      by_cases more : mantissa < 0x010000 ∧ exponent + 1 > 3
      · obtain ⟨short, above⟩ := more
        have shifted : mantissa <<< 8 = mantissa * 256 := Nat.shiftLeft_eq mantissa 8
        have fits : mantissa <<< 8 < 0x1000000 := by omega
        obtain ⟨least, width, value, moved⟩ := ih (by omega) fits
        rw [if_pos ⟨short, above⟩]
        refine ⟨least, width, ?_, .inr ?_⟩
        · rw [value, shifted, show exponent + 1 - 3 = exponent - 3 + 1 by omega, Nat.pow_succ']
          ring
        · rcases moved with same | ⟨below, divides⟩
          · rw [same]
            exact ⟨Nat.lt_succ_self exponent, shifted ▸ Nat.dvd_mul_left 256 mantissa⟩
          · exact ⟨Nat.lt_succ_of_lt below, divides⟩
      · rw [if_neg more]
        exact ⟨low, small, rfl, .inl rfl⟩

theorem bit_eq_zero_iff (small : mantissa < 0x1000000) :
    mantissa &&& 0x800000 = 0 ↔ mantissa < 0x800000 := by
  have isBit : mantissa &&& 0x800000 = (mantissa.testBit 23).toNat * 2 ^ 23 :=
    Nat.and_two_pow mantissa 23
  rw [isBit, Nat.testBit_eq_decide_div_mod_eq]
  by_cases low : mantissa < 0x800000
  · have unset : ¬ mantissa / 2 ^ 23 % 2 = 1 := by omega
    rw [decide_eq_false unset]
    exact ⟨fun _ => low, fun _ => rfl⟩
  · have set_ : mantissa / 2 ^ 23 % 2 = 1 := by omega
    rw [decide_eq_true set_]
    exact ⟨fun none_ => absurd none_ (by decide), fun less => absurd less low⟩

/-- A mantissa below the sign bit keeps its value. -/
theorem normalize_small (low : 3 ≤ exponent) (small : mantissa < 0x800000) :
    3 ≤ (normalize exponent mantissa).1 ∧ (normalize exponent mantissa).1 ≤ exponent ∧
      (normalize exponent mantissa).2 < 0x800000 ∧
      (normalize exponent mantissa).2 * 256 ^ ((normalize exponent mantissa).1 - 3) =
        mantissa * 256 ^ (exponent - 3) := by
  have down : shiftDown 8 exponent mantissa = (exponent, mantissa) :=
    shiftDown_small 8 (by omega)
  obtain ⟨least, width, value, moved⟩ :=
    shiftUp_spec low (show mantissa < 0x1000000 by omega)
  have within : (shiftUp exponent mantissa).1 ≤ exponent := by
    rcases moved with same | ⟨below, _⟩
    · rw [same]
    · exact Nat.le_of_lt below
  simp only [normalize, down]
  by_cases clear : (shiftUp exponent mantissa).2 &&& 0x800000 = 0
  · rw [if_neg (not_not.mpr clear)]
    exact ⟨least, within, (bit_eq_zero_iff width).mp clear, value⟩
  · rw [if_pos clear]
    have signed : ¬ (shiftUp exponent mantissa).2 < 0x800000 :=
      fun less => clear ((bit_eq_zero_iff width).mpr less)
    rcases moved with same | ⟨below, divides⟩
    · rw [same] at signed
      exact absurd small signed
    · rw [Nat.shiftRight_eq_div_pow]
      refine ⟨by omega, by omega, by omega, ?_⟩
      dsimp only
      rw [← value, show (shiftUp exponent mantissa).1 + 1 - 3 =
        (shiftUp exponent mantissa).1 - 3 + 1 by omega, pow_succ' 256, ← Nat.mul_assoc]
      exact congrArg (· * _) (Nat.div_mul_cancel divides)

/-- A mantissa that reaches the sign bit loses its last byte. -/
theorem normalize_large (reaches : 0x800000 ≤ mantissa) (bounded : mantissa < 0x2000000) :
    normalize exponent mantissa = (exponent + 1, mantissa / 256) := by
  have keep (exponent mantissa : Nat) (used : 0x010000 ≤ mantissa) :
      shiftUp exponent mantissa = (exponent, mantissa) := by
    cases exponent with
    | zero => rw [shiftUp]
    | succ exponent => rw [shiftUp, if_neg (by omega)]
  have quotient : mantissa >>> 8 = mantissa / 256 := Nat.shiftRight_eq_div_pow mantissa 8
  by_cases wide : mantissa ≥ 0x1000000
  · have down : shiftDown 8 exponent mantissa = (exponent + 1, mantissa / 256) := by
      rw [shiftDown, if_pos wide, quotient, shiftDown_small 7 (by omega)]
    have clear : mantissa / 256 &&& 0x800000 = 0 := (bit_eq_zero_iff (by omega)).mpr (by omega)
    simp only [normalize, down]
    rw [keep _ _ (by omega), if_neg (not_not.mpr clear)]
  · have down : shiftDown 8 exponent mantissa = (exponent, mantissa) :=
      shiftDown_small 8 (by omega)
    have signed : mantissa &&& 0x800000 ≠ 0 := fun clear =>
      absurd ((bit_eq_zero_iff (by omega)).mp clear) (by omega)
    simp only [normalize, down]
    rw [keep _ _ (by omega), if_pos signed, quotient]

end Normalization

section Retargeting

variable {bits : UInt32}

theorem clampTimespan_toNat (timeSpan : UInt32) :
    (clampTimespan timeSpan).toNat = min (max timeSpan.toNat 302400) 4838400 := by
  have least : minTimespan.toNat = 302400 := rfl
  have most : maxTimespan.toNat = 4838400 := rfl
  rw [clampTimespan]
  by_cases short : timeSpan < minTimespan
  · rw [if_pos short, if_neg (by decide), least]
    rw [UInt32.lt_iff_toNat_lt] at short
    omega
  · rw [if_neg short]
    rw [UInt32.lt_iff_toNat_lt] at short
    by_cases long : timeSpan > maxTimespan
    · rw [if_pos long, most]
      rw [GT.gt, UInt32.lt_iff_toNat_lt] at long
      omega
    · rw [if_neg long]
      rw [GT.gt, UInt32.lt_iff_toNat_lt] at long
      omega

theorem calculateNextDifficulty_exists (bits timeSpan : UInt32) {expectedTime : UInt32}
    (positive : expectedTime ≠ 0) :
    ∃ next, calculateNextDifficulty bits timeSpan expectedTime = some next := by
  rw [calculateNextDifficulty]
  by_cases zero : (bits >>> 24).toNat = 0 ∨ (bits &&& 0x00FFFFFF).toNat = 0
  · exact ⟨bits, if_pos zero⟩
  · rw [if_neg zero, if_neg positive]
    exact ⟨_, rfl⟩

/-- The mantissa that retargeting scales to. -/
def scaledMantissa (bits timeSpan : UInt32) : Nat :=
  mantissaOf bits * (clampTimespan timeSpan).toNat / targetTimespan.toNat

theorem calculateNextDifficulty_eq (timeSpan : UInt32) (exponent : exponentOf bits ≠ 0)
    (mantissa : mantissaOf bits ≠ 0) :
    calculateNextDifficulty bits timeSpan targetTimespan =
      some (UInt32.ofNat (min (normalize (exponentOf bits) (scaledMantissa bits timeSpan)).1 0x20)
          <<< 24 |||
        UInt32.ofNat ((normalize (exponentOf bits) (scaledMantissa bits timeSpan)).2 &&& 0x00FFFFFF)) := by
  have here : ¬ ((bits >>> 24).toNat = 0 ∨ (bits &&& 0x00FFFFFF).toNat = 0) :=
    not_or.mpr ⟨exponent, mantissa⟩
  rw [calculateNextDifficulty, if_neg here, if_neg (by decide)]
  rfl

variable {timeSpan : UInt32}

theorem scaledMantissa_le (bits timeSpan : UInt32) :
    scaledMantissa bits timeSpan ≤ 4 * mantissaOf bits := by
  have most : (clampTimespan timeSpan).toNat ≤ 4 * targetTimespan.toNat := by
    rw [clampTimespan_toNat]
    exact Nat.min_le_right _ _
  apply Nat.div_le_of_le_mul
  calc mantissaOf bits * (clampTimespan timeSpan).toNat
      ≤ mantissaOf bits * (4 * targetTimespan.toNat) := Nat.mul_le_mul_left _ most
    _ = targetTimespan.toNat * (4 * mantissaOf bits) := by ring

theorem scaledMantissa_mono (bits : UInt32) {shorter longer : UInt32} (order : shorter ≤ longer) :
    scaledMantissa bits shorter ≤ scaledMantissa bits longer := by
  have clamped : (clampTimespan shorter).toNat ≤ (clampTimespan longer).toNat := by
    rw [UInt32.le_iff_toNat_le] at order
    rw [clampTimespan_toNat, clampTimespan_toNat]
    omega
  exact Nat.div_le_div_right (Nat.mul_le_mul_left _ clamped)

theorem mantissa_le_scaled (long : targetTimespan ≤ clampTimespan timeSpan) :
    mantissaOf bits ≤ scaledMantissa bits timeSpan :=
  (Nat.le_div_iff_mul_le (by decide)).mpr
    (Nat.mul_le_mul_left _ (UInt32.le_iff_toNat_le.mp long))

theorem scaled_le_mantissa (short : clampTimespan timeSpan ≤ targetTimespan) :
    scaledMantissa bits timeSpan ≤ mantissaOf bits := by
  apply Nat.div_le_of_le_mul
  rw [Nat.mul_comm]
  exact Nat.mul_le_mul_right _ (UInt32.le_iff_toNat_le.mp short)

/-- The bits that the law of retargeting is about. -/
structure Retargetable (bits : UInt32) : Prop where
  low : 3 ≤ exponentOf bits
  high : exponentOf bits ≤ 32
  positive : 0 < mantissaOf bits
  unsigned : mantissaOf bits ≤ 0x7fffff

variable (ordinary : Retargetable bits)

include ordinary

theorem Retargetable.next_eq (timeSpan : UInt32) :
    calculateNextDifficulty bits timeSpan targetTimespan =
      some (UInt32.ofNat (min (normalize (exponentOf bits) (scaledMantissa bits timeSpan)).1 0x20)
          <<< 24 |||
        UInt32.ofNat ((normalize (exponentOf bits) (scaledMantissa bits timeSpan)).2 &&& 0x00FFFFFF)) := by
  have low := ordinary.low
  exact calculateNextDifficulty_eq timeSpan (by omega) (Nat.pos_iff_ne_zero.mp ordinary.positive)

theorem Retargetable.scaled_lt (timeSpan : UInt32) : scaledMantissa bits timeSpan < 0x2000000 := by
  have bound := scaledMantissa_le bits timeSpan
  have unsigned := ordinary.unsigned
  omega

/-- Below the sign bit the target is scaled exactly. -/
theorem Retargetable.next_small (small : scaledMantissa bits timeSpan < 0x800000) :
    ∃ next, calculateNextDifficulty bits timeSpan targetTimespan = some next ∧
      targetOf next = scaledMantissa bits timeSpan * 256 ^ (exponentOf bits - 3) := by
  obtain ⟨least, within, width, value⟩ := normalize_small ordinary.low small
  have kept : min (normalize (exponentOf bits) (scaledMantissa bits timeSpan)).1 0x20 =
      (normalize (exponentOf bits) (scaledMantissa bits timeSpan)).1 :=
    Nat.min_eq_left (Nat.le_trans within ordinary.high)
  refine ⟨_, ordinary.next_eq timeSpan, ?_⟩
  rw [kept, targetOf_packed least (Nat.le_trans within ordinary.high) (by omega), value]

/-- From the sign bit on the last byte is lost, and the exponent stops at 32. -/
theorem Retargetable.next_large (reaches : 0x800000 ≤ scaledMantissa bits timeSpan) :
    ∃ next, calculateNextDifficulty bits timeSpan targetTimespan = some next ∧
      targetOf next =
        scaledMantissa bits timeSpan / 256 * 256 ^ (min (exponentOf bits + 1) 32 - 3) := by
  have low := ordinary.low
  have bounded := ordinary.scaled_lt timeSpan
  have next := ordinary.next_eq timeSpan
  rw [normalize_large reaches bounded] at next
  refine ⟨_, next, ?_⟩
  exact targetOf_packed (by omega) (Nat.min_le_right _ _) (by dsimp only; omega)

theorem Retargetable.targetOf_eq :
    targetOf bits = mantissaOf bits * 256 ^ (exponentOf bits - 3) :=
  Difficulty.targetOf_eq ordinary.low ordinary.high

/-- A scaled mantissa that loses its last byte is still above the old one. -/
theorem Retargetable.old_le_large (reaches : 0x800000 ≤ scaledMantissa bits timeSpan)
    (below : exponentOf bits < 32) :
    targetOf bits ≤
      scaledMantissa bits timeSpan / 256 * 256 ^ (min (exponentOf bits + 1) 32 - 3) := by
  have low := ordinary.low
  have unsigned := ordinary.unsigned
  have above : mantissaOf bits ≤ scaledMantissa bits timeSpan / 256 * 256 := by omega
  rw [ordinary.targetOf_eq, Nat.min_eq_left (by omega),
    show exponentOf bits + 1 - 3 = exponentOf bits - 3 + 1 by omega, pow_succ' 256, ← Nat.mul_assoc]
  exact Nat.mul_le_mul_right _ above

/-- Under the clamped exponent the target shrinks although the span was too long. -/
theorem Retargetable.clamped_lt_old (reaches : 0x800000 ≤ scaledMantissa bits timeSpan)
    (top : exponentOf bits = 32) :
    scaledMantissa bits timeSpan / 256 * 256 ^ (min (exponentOf bits + 1) 32 - 3) <
      targetOf bits := by
  have bound := scaledMantissa_le bits timeSpan
  rw [ordinary.targetOf_eq, top]
  exact Nat.mul_lt_mul_of_pos_right (by omega) (by decide)

/-- The clamped span sets the direction: one that was too long eases the target, one
that was too short tightens it. -/
def FollowsSpan (bits timeSpan : UInt32) : Prop :=
  ∃ next, calculateNextDifficulty bits timeSpan targetTimespan = some next ∧
    (targetTimespan ≤ clampTimespan timeSpan → targetOf bits ≤ targetOf next) ∧
    (clampTimespan timeSpan ≤ targetTimespan → targetOf next ≤ targetOf bits)

/-- The longer span does not make the smaller target. -/
def Nondecreasing (bits shorter longer : UInt32) : Prop :=
  ∃ tighter easier, calculateNextDifficulty bits shorter targetTimespan = some tighter ∧
    calculateNextDifficulty bits longer targetTimespan = some easier ∧
    targetOf tighter ≤ targetOf easier

omit ordinary in
theorem reaches_long (unsigned : mantissaOf bits ≤ 0x7fffff)
    (reaches : 0x800000 ≤ scaledMantissa bits timeSpan) :
    targetTimespan < clampTimespan timeSpan := by
  rw [← UInt32.not_le]
  intro short
  have shrunk : scaledMantissa bits timeSpan ≤ mantissaOf bits := scaled_le_mantissa short
  omega

theorem Retargetable.followsSpan_iff (timeSpan : UInt32) :
    FollowsSpan bits timeSpan ↔
      exponentOf bits < 32 ∨ scaledMantissa bits timeSpan < 0x800000 := by
  have high := ordinary.high
  by_cases small : scaledMantissa bits timeSpan < 0x800000
  · obtain ⟨next, calculated, target⟩ := ordinary.next_small small
    refine iff_of_true ⟨next, calculated, ?_, ?_⟩ (.inr small)
    · intro long
      rw [target, ordinary.targetOf_eq]
      exact Nat.mul_le_mul_right _ (mantissa_le_scaled long)
    · intro short
      rw [target, ordinary.targetOf_eq]
      exact Nat.mul_le_mul_right _ (scaled_le_mantissa short)
  · have reaches : 0x800000 ≤ scaledMantissa bits timeSpan := Nat.not_lt.mp small
    have long := reaches_long ordinary.unsigned reaches
    obtain ⟨next, calculated, target⟩ := ordinary.next_large reaches
    by_cases below : exponentOf bits < 32
    · refine iff_of_true ⟨next, calculated, ?_, ?_⟩ (.inl below)
      · intro _
        rw [target]
        exact ordinary.old_le_large reaches below
      · intro short
        exact absurd long (UInt32.not_lt.mpr short)
    · have top : exponentOf bits = 32 := by omega
      refine iff_of_false ?_ (not_or.mpr ⟨below, small⟩)
      rintro ⟨other, again, eased, _⟩
      have same : other = next := Option.some.inj (again.symm.trans calculated)
      have grown := eased (UInt32.le_of_lt long)
      have shrunk := ordinary.clamped_lt_old reaches top
      rw [same, target] at grown
      omega

/-- Where the longer span moves the target right, the shorter one leaves no larger target. -/
theorem Retargetable.nondecreasing {shorter longer : UInt32} (order : shorter ≤ longer)
    (right : exponentOf bits < 32 ∨ scaledMantissa bits longer < 0x800000) :
    Nondecreasing bits shorter longer := by
  have scaled := scaledMantissa_mono bits order
  by_cases small : scaledMantissa bits longer < 0x800000
  · obtain ⟨tighter, first, firstTarget⟩ :=
      ordinary.next_small (Nat.lt_of_le_of_lt scaled small)
    obtain ⟨easier, second, secondTarget⟩ := ordinary.next_small small
    refine ⟨tighter, easier, first, second, ?_⟩
    rw [firstTarget, secondTarget]
    exact Nat.mul_le_mul_right _ scaled
  · have reaches : 0x800000 ≤ scaledMantissa bits longer := Nat.not_lt.mp small
    have below : exponentOf bits < 32 := right.resolve_right small
    obtain ⟨easier, second, secondTarget⟩ := ordinary.next_large reaches
    by_cases shortSmall : scaledMantissa bits shorter < 0x800000
    · obtain ⟨tighter, first, firstTarget⟩ := ordinary.next_small shortSmall
      refine ⟨tighter, easier, first, second, ?_⟩
      have low := ordinary.low
      rw [firstTarget, secondTarget, Nat.min_eq_left (by omega),
        show exponentOf bits + 1 - 3 = exponentOf bits - 3 + 1 by omega, pow_succ' 256,
        ← Nat.mul_assoc]
      exact Nat.mul_le_mul_right _ (by omega)
    · obtain ⟨tighter, first, firstTarget⟩ := ordinary.next_large (Nat.not_lt.mp shortSmall)
      refine ⟨tighter, easier, first, second, ?_⟩
      rw [firstTarget, secondTarget]
      exact Nat.mul_le_mul_right _ (Nat.div_le_div_right scaled)

theorem Retargetable.right_iff {shorter longer : UInt32} (order : shorter ≤ longer) :
    (FollowsSpan bits shorter ∧ FollowsSpan bits longer ∧ Nondecreasing bits shorter longer) ↔
      exponentOf bits < 32 ∨ scaledMantissa bits longer < 0x800000 := by
  constructor
  · rintro ⟨_, longer, _⟩
    exact (ordinary.followsSpan_iff _).mp longer
  · intro right
    have scaled := scaledMantissa_mono bits order
    have shorterRight : exponentOf bits < 32 ∨ scaledMantissa bits shorter < 0x800000 :=
      right.imp_right (Nat.lt_of_le_of_lt scaled)
    exact ⟨(ordinary.followsSpan_iff _).mpr shorterRight, (ordinary.followsSpan_iff _).mpr right,
      ordinary.nondecreasing order right⟩

omit ordinary in
theorem scaled_lt_iff (bits timeSpan : UInt32) :
    scaledMantissa bits timeSpan < 0x800000 ↔
      mantissaOf bits * (clampTimespan timeSpan).toNat < 0x800000 * targetTimespan.toNat :=
  Nat.div_lt_iff_lt_mul (by decide)

end Retargeting

/-- Retargeting moves the target with the span, and the more the longer the span is, exactly
while a target of exponent 32 is not scaled to the sign bit: no span does that to a mantissa
below 0x200000. -/
theorem retargeting_right_iff {bits : UInt32} (ordinary : Retargetable bits) :
    (∀ shorter longer, shorter ≤ longer →
      ((FollowsSpan bits shorter ∧ FollowsSpan bits longer ∧ Nondecreasing bits shorter longer) ↔
        exponentOf bits < 32 ∨
          mantissaOf bits * (clampTimespan longer).toNat < 0x800000 * targetTimespan.toNat)) ∧
    ((∀ shorter longer, shorter ≤ longer →
      FollowsSpan bits shorter ∧ FollowsSpan bits longer ∧ Nondecreasing bits shorter longer) ↔
        exponentOf bits < 32 ∨ mantissaOf bits < 0x200000) := by
  have each (shorter longer : UInt32) (order : shorter ≤ longer) :
      (FollowsSpan bits shorter ∧ FollowsSpan bits longer ∧ Nondecreasing bits shorter longer) ↔
        exponentOf bits < 32 ∨
          mantissaOf bits * (clampTimespan longer).toNat < 0x800000 * targetTimespan.toNat :=
    (ordinary.right_iff order).trans (or_congr_right (scaled_lt_iff bits longer))
  refine ⟨each, ?_⟩
  constructor
  · intro all
    -- The longest span scales the mantissa by four.
    have longest : exponentOf bits < 32 ∨ mantissaOf bits * 4838400 < 0x800000 * 1209600 :=
      (each maxTimespan maxTimespan UInt32.le_rfl).mp (all _ _ UInt32.le_rfl)
    omega
  · intro right shorter longer order
    refine (each shorter longer order).mpr ?_
    rcases right with below | small
    · exact .inl below
    · refine .inr ((scaled_lt_iff bits longer).mp ?_)
      have bound := scaledMantissa_le bits longer
      omega

theorem retargeting_right_mainnet :
    Retargetable 0x1d00ffff ∧ ∀ shorter longer, shorter ≤ longer →
      FollowsSpan 0x1d00ffff shorter ∧ FollowsSpan 0x1d00ffff longer ∧
        Nondecreasing 0x1d00ffff shorter longer :=
  have ordinary : Retargetable 0x1d00ffff := ⟨by decide, by decide, by decide, by decide⟩
  ⟨ordinary, (retargeting_right_iff ordinary).2.mpr (.inl (by decide))⟩

/-- At the target the chain starts from, the longest span tightens it. -/
theorem retargeting_initial_tightens :
    ¬ ∀ bits timeSpan, Retargetable bits → FollowsSpan bits timeSpan := by
  intro all
  obtain ⟨next, calculated, eased, _⟩ :=
    all getInitialBits maxTimespan ⟨by decide, by decide, by decide, by decide⟩
  have value : next = 0x2001ffff :=
    Option.some.inj (calculated.symm.trans (by decide))
  have grown := eased (by decide)
  rw [value] at grown
  exact absurd grown (by decide +kernel)

end Parthenon.Consensus.Difficulty
