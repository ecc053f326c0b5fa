import Mathlib.Data.List.Induction
import Mathlib.Data.Rat.Defs
import Mathlib.Tactic.FieldSimp
import Parthenon.Library.Delimited
import Parthenon.Primitives.SafeMath
import Parthenon.Storage.BlockStorage

namespace Parthenon.Monetary

open Library Primitives Storage

/-! # Scaled decimals

A number of units as the text of a decimal with a fixed number of places, and back.
-/

/-- A product, or nothing where it overflows. -/
def mulOverflow (a b : UInt64) : Option UInt64 := SafeMath.mul a b

def pow10 : Nat → Option UInt64
  | 0 => some 1
  | exponent + 1 =>
      (pow10 exponent).bind fun value =>
        if value > 0xFFFFFFFFFFFFFFFF / 10 then none else some (value * 10)

/-- `std::from_chars` over a whole text: only digits, and no more than a word holds. -/
def fromChars (digits : Bytes) : Option UInt64 :=
  if digits.isEmpty then none
  else if !digits.all isDigit then none
  else if parseDigits digits < 2 ^ 64 then some (.ofNat (parseDigits digits))
  else none

/-- A text before and after its first point. -/
def splitPoint (value : Bytes) : Bytes × Bytes := (cut 46 value).getD (value, [])

/-- The fraction is filled up with zeros to the number of places. -/
def filled (decimals : Nat) (frac : Bytes) : Bytes :=
  frac ++ List.replicate (decimals - frac.length) 48

/-- A fraction without places is zero. -/
def readFrac (padded : Bytes) : Option UInt64 :=
  if padded.isEmpty then some 0 else fromChars padded

def parseScaledDecimal (value : Bytes) (decimals : Nat) : Option UInt64 :=
  if value.isEmpty then none
  else
    let (wholePart, fracPart) := splitPoint value
    if wholePart.isEmpty || wholePart.head? == some 45 then none
    else do
      let whole ← fromChars wholePart
      if fracPart.length > decimals then none
      else if !fracPart.all isDigit then none
      else
        let frac ← readFrac (filled decimals fracPart)
        let scale ← pow10 decimals
        if whole > 0xFFFFFFFFFFFFFFFF / scale then none
        else if whole * scale > 0xFFFFFFFFFFFFFFFF - frac then none
        else some (whole * scale + frac)

/-- `std::setw` with `std::setfill('0')`. -/
def zeroPadded (width : Nat) (digits : Bytes) : Bytes :=
  List.replicate (width - digits.length) 48 ++ digits

def formatScaledDecimal (scaled : UInt64) (decimals : Nat) : Bytes :=
  let scale := (pow10 decimals).getD 1
  let whole := if scale = 0 then scaled else scaled / scale
  let frac := if scale = 0 then 0 else scaled % scale
  decimal whole.toNat ++ (if decimals > 0 then 46 :: zeroPadded decimals (decimal frac.toNat) else [])

/-! ## Numerals -/

theorem parseDigits_append (high low : Bytes) :
    parseDigits (high ++ low) = parseDigits high * 10 ^ low.length + parseDigits low := by
  induction low using List.reverseRecOn with
  | nil => simp [parseDigits]
  | append_singleton low digit ih =>
      have last : ∀ digits : Bytes, parseDigits (digits ++ [digit]) =
          10 * parseDigits digits + (digit.toNat - 48) := fun digits => by
        simp [parseDigits, List.foldl_append]
      rw [← List.append_assoc, last, ih, last low, List.length_append, List.length_singleton,
        Nat.pow_succ]
      ring

theorem parseDigits_zeros (count : Nat) : parseDigits (List.replicate count 48) = 0 := by
  induction count with
  | zero => rfl
  | succ count ih => simpa [parseDigits, List.replicate_succ] using ih

theorem parseDigits_filled (decimals : Nat) (frac : Bytes) :
    parseDigits (filled decimals frac) = parseDigits frac * 10 ^ (decimals - frac.length) := by
  rw [filled, parseDigits_append, parseDigits_zeros, List.length_replicate, Nat.add_zero]

theorem parseDigits_zeroPadded (width : Nat) (digits : Bytes) :
    parseDigits (zeroPadded width digits) = parseDigits digits := by
  rw [zeroPadded, parseDigits_append, parseDigits_zeros, Nat.zero_mul, Nat.zero_add]

theorem decimal_length_le_iff {value width : Nat} (some_ : 0 < width) :
    (decimal value).length ≤ width ↔ value < 10 ^ width := by
  rw [decimal, text, List.length_map]
  exact Nat.length_toDigits_le_iff (by decide) some_

theorem zeros_isDigit (count : Nat) : (List.replicate count (48 : UInt8)).all isDigit = true := by
  rw [List.all_eq_true]
  intro byte member
  rw [List.eq_of_mem_replicate member]
  rfl

theorem filled_isDigit {decimals : Nat} {frac : Bytes} (all : frac.all isDigit = true) :
    (filled decimals frac).all isDigit = true := by
  rw [filled, List.all_append, all, zeros_isDigit]
  rfl

theorem zeroPadded_isDigit (width value : Nat) :
    (zeroPadded width (decimal value)).all isDigit = true := by
  rw [zeroPadded, List.all_append, decimal_isDigit, zeros_isDigit]
  rfl

theorem zeroPadded_length {width value : Nat} (small : value < 10 ^ width) (some_ : 0 < width) :
    (zeroPadded width (decimal value)).length = width := by
  have short := (decimal_length_le_iff some_).mpr small
  rw [zeroPadded, List.length_append, List.length_replicate]
  omega

theorem fromChars_eq_some_iff {digits : Bytes} {value : UInt64} :
    fromChars digits = some value ↔
      digits ≠ [] ∧ digits.all isDigit = true ∧ parseDigits digits = value.toNat := by
  unfold fromChars
  cases digits with
  | nil => simp
  | cons first rest =>
      have small := value.toNat_lt
      cases all : (first :: rest).all isDigit with
      | false => simp
      | true =>
          simp only [List.isEmpty_cons, Bool.not_true, Bool.false_eq_true, if_false]
          split
          · rename_i fits
            rw [Option.some.injEq, ← UInt64.toNat_inj, UInt64.toNat_ofNat_of_lt' fits]
            simp
          · rename_i exceeds
            refine iff_of_false (fun none => nomatch none) fun parsed => exceeds ?_
            rw [parsed.2.2]
            exact small

theorem pow10_toNat {exponent : Nat} (small : exponent ≤ 19) :
    ∃ value, pow10 exponent = some value ∧ value.toNat = 10 ^ exponent := by
  induction exponent with
  | zero => exact ⟨1, rfl, rfl⟩
  | succ exponent ih =>
      obtain ⟨value, isValue, toNat⟩ := ih (by omega)
      have bound : 10 ^ exponent ≤ 10 ^ 18 := Nat.pow_le_pow_right (by decide) (by omega)
      have ten : (10 : UInt64).toNat = 10 := rfl
      have fits : value.toNat * (10 : UInt64).toNat < 2 ^ 64 := by
        rw [ten]
        omega
      have within : ¬ value > 0xFFFFFFFFFFFFFFFF / 10 := by
        rw [mul_fits_iff (by decide), Nat.mul_comm]
        exact fits
      refine ⟨value * 10, ?_, ?_⟩
      · rw [pow10, isValue, Option.bind_some, if_neg within]
      · rw [UInt64.toNat_mul, Nat.mod_eq_of_lt fits, toNat, Nat.pow_succ, ten]

/-! ## Unsigned decimals -/

/-- Digits, and a point with more digits unless it is left out. -/
structure IsDecimal (value whole frac : Bytes) : Prop where
  some_ : whole ≠ []
  wholeDigits : whole.all isDigit = true
  fracDigits : frac.all isDigit = true
  isValue : value = whole ∧ frac = [] ∨ value = whole ++ 46 :: frac

/-- The number that a decimal stands for. -/
def decimalValue (whole frac : Bytes) : ℚ :=
  parseDigits whole + parseDigits frac / 10 ^ frac.length

/-- A decimal in units of its last possible place. -/
def scaledValue (whole frac : Bytes) (decimals : Nat) : Nat :=
  parseDigits whole * 10 ^ decimals + parseDigits frac * 10 ^ (decimals - frac.length)

theorem scaledValue_eq {whole frac : Bytes} {decimals : Nat} (short : frac.length ≤ decimals) :
    (scaledValue whole frac decimals : ℚ) = decimalValue whole frac * 10 ^ decimals := by
  have places : (10 : ℚ) ^ decimals = 10 ^ frac.length * 10 ^ (decimals - frac.length) := by
    rw [← pow_add, Nat.add_sub_cancel' short]
  rw [scaledValue, decimalValue]
  push_cast
  rw [add_mul, places]
  field_simp

theorem point_not_mem {digits : Bytes} (all : digits.all isDigit = true) : (46 : UInt8) ∉ digits := by
  intro member
  exact absurd (List.all_eq_true.mp all 46 member) (by decide)

theorem IsDecimal.splitPoint {value whole frac : Bytes} (isDecimal : IsDecimal value whole frac) :
    splitPoint value = (whole, frac) := by
  have absent := point_not_mem isDecimal.wholeDigits
  rcases isDecimal.isValue with ⟨rfl, rfl⟩ | rfl
  · rw [Monetary.splitPoint, cut_eq_none_iff.mpr absent]
    rfl
  · rw [Monetary.splitPoint, cut_append absent]
    rfl

/-- A text is what is before its first point, with what is after it if there is one. -/
theorem splitPoint_cases (value : Bytes) :
    value = (splitPoint value).1 ∧ (splitPoint value).2 = [] ∨
      value = (splitPoint value).1 ++ 46 :: (splitPoint value).2 := by
  rw [splitPoint]
  cases found : cut 46 value with
  | none => exact .inl ⟨rfl, rfl⟩
  | some parts => exact .inr (cut_some found).2

/-- A decimal has one whole part and one fraction. -/
theorem IsDecimal.unique {value whole frac otherWhole otherFrac : Bytes}
    (isDecimal : IsDecimal value whole frac) (isOther : IsDecimal value otherWhole otherFrac) :
    whole = otherWhole ∧ frac = otherFrac := by
  have same := isDecimal.splitPoint.symm.trans isOther.splitPoint
  exact Prod.mk.inj same

/-- The sum of whole units and a fraction, guarded against both overflows. -/
theorem scaled_sum_iff {whole scale frac amount : UInt64} (scales : scale ≠ 0) :
    (if whole > 0xFFFFFFFFFFFFFFFF / scale then none
      else if whole * scale > 0xFFFFFFFFFFFFFFFF - frac then none
      else some (whole * scale + frac)) = some amount ↔
      whole.toNat * scale.toNat + frac.toNat = amount.toNat := by
  have small := amount.toNat_lt
  by_cases exceeds : whole > 0xFFFFFFFFFFFFFFFF / scale
  · have big : ¬ scale.toNat * whole.toNat < 2 ^ 64 := fun fits =>
      (mul_fits_iff scales).mpr fits exceeds
    rw [if_pos exceeds]
    refine iff_of_false (fun none => nomatch none) ?_
    rw [Nat.mul_comm] at big
    omega
  · have product := (mul_fits_iff scales).mp exceeds
    rw [Nat.mul_comm] at product
    have isProduct : (whole * scale).toNat = whole.toNat * scale.toNat := by
      rw [UInt64.toNat_mul, Nat.mod_eq_of_lt product]
    rw [if_neg exceeds]
    by_cases over_ : whole * scale > 0xFFFFFFFFFFFFFFFF - frac
    · have big := mt add_fits_iff.mpr (not_not.mpr over_)
      rw [if_pos over_]
      refine iff_of_false (fun none => nomatch none) ?_
      omega
    · have fits := add_fits_iff.mp over_
      rw [if_neg over_, Option.some.injEq, ← UInt64.toNat_inj, toNat_add_of_fits fits, isProduct]

theorem readFrac_toNat {padded : Bytes} {frac : UInt64} (read : readFrac padded = some frac) :
    parseDigits padded = frac.toNat := by
  cases padded with
  | nil =>
      cases read
      rfl
  | cons first rest =>
      rw [readFrac, if_neg (by simp)] at read
      exact (fromChars_eq_some_iff.mp read).2.2

theorem readFrac_of_digits {padded : Bytes} (all : padded.all isDigit = true)
    (fits : parseDigits padded < 2 ^ 64) :
    readFrac padded = some (UInt64.ofNat (parseDigits padded)) := by
  cases padded with
  | nil => rfl
  | cons first rest =>
      rw [readFrac, if_neg (by simp), fromChars_eq_some_iff]
      exact ⟨List.cons_ne_nil _ _, all, (UInt64.toNat_ofNat_of_lt' fits).symm⟩

theorem digits_unsigned {digits : Bytes} (some_ : digits ≠ []) (all : digits.all isDigit = true) :
    ¬ (digits.isEmpty || digits.head? == some 45) = true := by
  cases digits with
  | nil => exact absurd rfl some_
  | cons first rest =>
      have isDigit_ := List.all_eq_true.mp all first List.mem_cons_self
      simp only [List.isEmpty_cons, Bool.false_or, List.head?_cons, beq_iff_eq, Option.some.injEq]
      rintro rfl
      exact absurd isDigit_ (by decide)

/-- The parser accepts exactly the decimals that have no more places and fit a word. -/
theorem parseScaledDecimal_eq_some_iff {value : Bytes} {decimals : Nat} {amount : UInt64}
    (small : decimals ≤ 19) :
    parseScaledDecimal value decimals = some amount ↔
      ∃ whole frac, IsDecimal value whole frac ∧ frac.length ≤ decimals ∧
        scaledValue whole frac decimals = amount.toNat := by
  obtain ⟨scale, isScale, scaleNat⟩ := pow10_toNat small
  have scales : scale ≠ 0 := by
    intro zero
    rw [zero, UInt64.toNat_zero] at scaleNat
    exact absurd scaleNat.symm (Nat.pow_pos (by decide)).ne'
  constructor
  · intro parsed
    rw [parseScaledDecimal] at parsed
    split at parsed
    · cases parsed
    · cases parts : splitPoint value with
      | mk whole frac =>
          rw [parts] at parsed
          dsimp only at parsed
          split at parsed
          · cases parsed
          · obtain ⟨wholeWord, isWhole, parsed⟩ := Option.bind_eq_some_iff.mp parsed
            split at parsed
            · cases parsed
            · rename_i short
              split at parsed
              · cases parsed
              · rename_i digits
                obtain ⟨fracWord, isFrac, parsed⟩ := Option.bind_eq_some_iff.mp parsed
                rw [isScale] at parsed
                have sum := (scaled_sum_iff scales).mp parsed
                obtain ⟨wholeSome, wholeDigits, wholeNat⟩ := fromChars_eq_some_iff.mp isWhole
                have fracNat := readFrac_toNat isFrac
                refine ⟨whole, frac, ⟨wholeSome, wholeDigits, by simpa using digits, ?_⟩,
                  Nat.not_lt.mp short, ?_⟩
                · have joined := splitPoint_cases value
                  rwa [parts] at joined
                · rw [scaledValue, wholeNat, ← parseDigits_filled, fracNat, ← scaleNat]
                  exact sum
  · rintro ⟨whole, frac, isDecimal, short, isAmount⟩
    have word := amount.toNat_lt
    have positive : 0 < 10 ^ decimals := Nat.pow_pos (by decide)
    have wholeLe : parseDigits whole * 1 ≤ parseDigits whole * 10 ^ decimals :=
      Nat.mul_le_mul_left _ positive
    have fracParsed := parseDigits_filled decimals frac
    rw [scaledValue, ← fracParsed] at isAmount
    have wholeFits : parseDigits whole < 2 ^ 64 := by omega
    have fracFits : parseDigits (filled decimals frac) < 2 ^ 64 := by omega
    have isWhole : fromChars whole = some (.ofNat (parseDigits whole)) :=
      fromChars_eq_some_iff.mpr ⟨isDecimal.some_, isDecimal.wholeDigits,
        (UInt64.toNat_ofNat_of_lt' wholeFits).symm⟩
    have isFrac := readFrac_of_digits (filled_isDigit isDecimal.fracDigits) fracFits
    have nonempty : ¬ value.isEmpty = true := by
      rcases isDecimal.isValue with ⟨rfl, -⟩ | rfl
      · simpa using isDecimal.some_
      · simp
    have unsigned := digits_unsigned isDecimal.some_ isDecimal.wholeDigits
    rw [parseScaledDecimal, if_neg nonempty, isDecimal.splitPoint]
    dsimp only
    rw [if_neg unsigned]
    refine Option.bind_eq_some_iff.mpr ⟨_, isWhole, ?_⟩
    rw [if_neg (Nat.not_lt.mpr short), if_neg (by simp [isDecimal.fracDigits])]
    refine Option.bind_eq_some_iff.mpr ⟨_, isFrac,
      Option.bind_eq_some_iff.mpr ⟨scale, isScale, (scaled_sum_iff scales).mpr ?_⟩⟩
    rw [UInt64.toNat_ofNat_of_lt' wholeFits, UInt64.toNat_ofNat_of_lt' fracFits, scaleNat]
    exact isAmount

/-! ## Formatted amounts -/

/-- A number in units of the last place as a decimal, of any size. -/
def fixedText (scaled decimals : Nat) : Bytes :=
  decimal (scaled / 10 ^ decimals) ++
    (if 0 < decimals then 46 :: zeroPadded decimals (decimal (scaled % 10 ^ decimals)) else [])

theorem formatScaledDecimal_eq (scaled : UInt64) {decimals : Nat} (small : decimals ≤ 19) :
    formatScaledDecimal scaled decimals = fixedText scaled.toNat decimals := by
  obtain ⟨scale, isScale, scaleNat⟩ := pow10_toNat small
  have scales : scale ≠ 0 := by
    intro zero
    rw [zero, UInt64.toNat_zero] at scaleNat
    exact absurd scaleNat.symm (Nat.pow_pos (by decide)).ne'
  simp only [formatScaledDecimal, isScale, Option.getD_some, if_neg scales, UInt64.toNat_div,
    UInt64.toNat_mod, scaleNat, fixedText, gt_iff_lt]

/-- A formatted number is a decimal with all its places. -/
theorem fixedText_isDecimal (scaled : Nat) {decimals : Nat} (some_ : 0 < decimals) :
    IsDecimal (fixedText scaled decimals) (decimal (scaled / 10 ^ decimals))
      (zeroPadded decimals (decimal (scaled % 10 ^ decimals))) where
  some_ := decimal_ne_nil _
  wholeDigits := decimal_isDigit _
  fracDigits := zeroPadded_isDigit _ _
  isValue := .inr (by rw [fixedText, if_pos some_])

theorem fixedText_scaledValue (scaled : Nat) {decimals : Nat} (some_ : 0 < decimals) :
    scaledValue (decimal (scaled / 10 ^ decimals))
      (zeroPadded decimals (decimal (scaled % 10 ^ decimals))) decimals = scaled := by
  have small : scaled % 10 ^ decimals < 10 ^ decimals := Nat.mod_lt _ (Nat.pow_pos (by decide))
  rw [scaledValue, zeroPadded_length small some_, parseDigits_zeroPadded, parseDigits_decimal,
    parseDigits_decimal, Nat.sub_self, Nat.pow_zero, Nat.mul_one, Nat.mul_comm, Nat.div_add_mod]

/-- A formatted number that fits a word is read back. -/
theorem parseScaledDecimal_fixedText (amount : UInt64) {decimals : Nat} (some_ : 0 < decimals)
    (small : decimals ≤ 19) :
    parseScaledDecimal (fixedText amount.toNat decimals) decimals = some amount := by
  have places : amount.toNat % 10 ^ decimals < 10 ^ decimals :=
    Nat.mod_lt _ (Nat.pow_pos (by decide))
  rw [parseScaledDecimal_eq_some_iff small]
  exact ⟨_, _, fixedText_isDecimal amount.toNat some_, (zeroPadded_length places some_).le,
    fixedText_scaledValue amount.toNat some_⟩

end Parthenon.Monetary
