import Mathlib.Algebra.Order.Floor.Semifield
import Mathlib.Data.Rat.Floor
import Parthenon.Monetary.Denominations
import Parthenon.Monetary.Units

namespace Parthenon.Monetary

open Library Primitives Storage

/-! # Amounts in a denomination

An amount is multiplied up to a common multiple of the units before it is divided, in one word.
-/

/-- An empty name is the default denomination of the asset. -/
def chosenName (asset : AssetID) (denomination : Bytes) : Bytes :=
  if denomination.isEmpty then defaultDenominationName asset else denomination

def orError (error : String) : Option UInt64 → Except String UInt64
  | none => .error error
  | some value => .ok value

/-- The text, and whether it is approximate. -/
def formatAmountWithDenomination (amountRaw : UInt64) (asset : AssetID) (denomination : Bytes) :
    Option (Bytes × Bool) := do
  let denom ← resolveDenomination asset (chosenName asset denomination)
  let scale := (pow10 denom.allowedDecimals).getD 1
  let lhs ← mulOverflow amountRaw denom.tokenUnitsDenominator
  let numer ← mulOverflow lhs scale
  let denomDivisor ← mulOverflow (getTokenBaseUnit asset) denom.tokenUnitsNumerator
  if denomDivisor = 0 then none
  else
    some (formatScaledDecimal (numer / denomDivisor) denom.allowedDecimals,
      numer % denomDivisor != 0 || denom.approximateDisplay)

/-- The quotient, unless it would be rounded. -/
def divideExactly (numer denomDivisor : UInt64) : Except String UInt64 :=
  if denomDivisor = 0 then .error "invalid denomination divisor"
  else if numer % denomDivisor ≠ 0 then
    .error "denomination not exactly representable with current decimals"
  else .ok (numer / denomDivisor)

def parseDisplayAmountWithDenomination (value : Bytes) (asset : AssetID) (denomination : Bytes) :
    Except String UInt64 :=
  match resolveDenomination asset (chosenName asset denomination) with
  | none => .error "unknown denomination"
  | some denom =>
      if !denom.allowInput then .error "denomination is display-only"
      else do
        let scaled ← orError "invalid numeric amount"
          (parseScaledDecimal value denom.allowedDecimals)
        let scale := (pow10 denom.allowedDecimals).getD 1
        let denomRaw ← orError "amount overflow" (mulOverflow scaled denom.tokenUnitsNumerator)
        let numer ← orError "amount overflow" (mulOverflow denomRaw (getTokenBaseUnit asset))
        let denomDivisor ← orError "invalid denomination divisor"
          (mulOverflow denom.tokenUnitsDenominator scale)
        divideExactly numer denomDivisor

structure AmountView where
  amountRaw : UInt64
  amount : Bytes
  amountFormatted : Bytes
  token : Bytes
  denomUsed : Bytes
  dualDisplay : Option Bytes
  approximate : Bool
deriving DecidableEq, Repr

def getAssetName (asset : AssetID) : Bytes :=
  if asset = .talanton then text "TALANTON".toList
  else if asset = .drachma then text "DRACHMA".toList
  else if asset = .obolos then text "OBOLOS".toList
  else text "UNKNOWN".toList

/-- An amount with its worth in the next smaller asset behind it. -/
def dualText (amountRaw : UInt64) (asset : AssetID) (formatted : Bytes) : Option Bytes :=
  if asset = .drachma then
    (convertDrToOb amountRaw).map fun inOb =>
      formatted ++ text " DR (".toList ++ formatAmount inOb .obolos ++ text " OB)".toList
  else if asset = .talanton then
    (convertTalToDr amountRaw).map fun inDr =>
      formatted ++ text " TAL (".toList ++ formatAmount inDr .drachma ++ text " DR)".toList
  else none

def buildAmountView (amountRaw : UInt64) (asset : AssetID) (denomination : Bytes)
    (dualDisplay : Bool) : AmountView :=
  let denomName :=
    if denomination.isEmpty then defaultDenominationName asset else lower (trim denomination)
  let formatted := formatAmountWithDenomination amountRaw asset denomName
  let shown := (formatted.map Prod.fst).getD (formatAmount amountRaw asset)
  { amountRaw := amountRaw
    amount := shown
    amountFormatted := shown
    token := getAssetName asset
    denomUsed := denomName
    dualDisplay := if dualDisplay then dualText amountRaw asset shown else none
    approximate := (formatted.map Prod.snd).getD false }

/-! ## Exact amounts -/

namespace DenominationDefinition

/-- An amount in the denomination as base units of the token. -/
def toBaseUnits (denom : DenominationDefinition) (asset : AssetID) (amount : ℚ) : ℚ :=
  amount * denom.tokenUnitsNumerator.toNat / denom.tokenUnitsDenominator.toNat *
    (getTokenBaseUnit asset).toNat

/-- Base units of the token as an amount in the denomination. -/
def ofBaseUnits (denom : DenominationDefinition) (asset : AssetID) (amountRaw : ℚ) : ℚ :=
  amountRaw / (getTokenBaseUnit asset).toNat * denom.tokenUnitsDenominator.toNat /
    denom.tokenUnitsNumerator.toNat

/-- What the tables keep to. -/
structure Tabled (denom : DenominationDefinition) : Prop where
  places : denom.allowedDecimals = 8
  numerator_pos : 0 < denom.tokenUnitsNumerator.toNat
  numerator_le : denom.tokenUnitsNumerator.toNat ≤ 100
  denominator_pos : 0 < denom.tokenUnitsDenominator.toNat
  denominator_le : denom.tokenUnitsDenominator.toNat ≤ 60
  whole_or_part : denom.tokenUnitsNumerator.toNat = 1 ∨ denom.tokenUnitsDenominator.toNat = 1

end DenominationDefinition

/-- A text is an amount cut off after a number of places, with all its places. -/
def Shows (value : Bytes) (decimals : Nat) (amount : ℚ) : Prop :=
  ∃ whole frac, IsDecimal value whole frac ∧ frac.length = decimals ∧
    decimalValue whole frac * 10 ^ decimals = ⌊amount * 10 ^ decimals⌋₊

theorem tabled_of_mem {asset : AssetID} {denom : DenominationDefinition}
    (member : denom ∈ getAtticDisplayDenominations asset) : denom.Tabled := by
  have facts : ∀ table ∈ [talDenoms, drDenoms, obDenoms], ∀ denom ∈ table,
      denom.allowedDecimals = 8 ∧
      0 < denom.tokenUnitsNumerator.toNat ∧ denom.tokenUnitsNumerator.toNat ≤ 100 ∧
      0 < denom.tokenUnitsDenominator.toNat ∧ denom.tokenUnitsDenominator.toNat ≤ 60 ∧
      (denom.tokenUnitsNumerator.toNat = 1 ∨ denom.tokenUnitsDenominator.toNat = 1) := by
    decide +kernel
  obtain ⟨places, numPos, numLe, denPos, denLe, split_⟩ :=
    facts _ (getAtticDisplayDenominations_mem asset) denom member
  exact ⟨places, numPos, numLe, denPos, denLe, split_⟩

/-- The words that a conversion takes from a denomination do not overflow. -/
theorem DenominationDefinition.Tabled.words {denom : DenominationDefinition} (tabled : denom.Tabled)
    (asset : AssetID) :
    ∃ scale inputDivisor displayDivisor, pow10 denom.allowedDecimals = some scale ∧
      scale.toNat = 10 ^ 8 ∧
      mulOverflow denom.tokenUnitsDenominator scale = some inputDivisor ∧ inputDivisor ≠ 0 ∧
      inputDivisor.toNat = denom.tokenUnitsDenominator.toNat * 10 ^ 8 ∧
      mulOverflow (getTokenBaseUnit asset) denom.tokenUnitsNumerator = some displayDivisor ∧
      displayDivisor ≠ 0 ∧
      displayDivisor.toNat = 10 ^ 8 * denom.tokenUnitsNumerator.toNat := by
  have numPos := tabled.numerator_pos
  have denPos := tabled.denominator_pos
  have numLe := tabled.numerator_le
  have denLe := tabled.denominator_le
  have places : denom.allowedDecimals ≤ 19 := by
    rw [tabled.places]
    decide
  obtain ⟨scale, isScale, scaleNat⟩ := pow10_toNat places
  rw [tabled.places] at scaleNat
  have base := getTokenBaseUnit_toNat asset
  have product : ∀ {a b : UInt64} {value : Nat}, a.toNat * b.toNat = value → 0 < value →
      value < 2 ^ 64 → ∃ word, mulOverflow a b = some word ∧ word ≠ 0 ∧ word.toNat = value := by
    intro a b value isProduct positive fits
    have toNat : (UInt64.ofNat value).toNat = value := UInt64.toNat_ofNat_of_lt' fits
    refine ⟨.ofNat value, SafeMath.mul_eq_some_iff.mpr (isProduct.trans toNat.symm), ?_, toNat⟩
    intro zero
    rw [zero, UInt64.toNat_zero] at toNat
    omega
  obtain ⟨inputDivisor, isInput, inputNonzero, inputNat⟩ :=
    product (congrArg (denom.tokenUnitsDenominator.toNat * ·) scaleNat) (by omega) (by omega)
  obtain ⟨displayDivisor, isDisplay, displayNonzero, displayNat⟩ :=
    product (congrArg (· * denom.tokenUnitsNumerator.toNat) base) (by omega) (by omega)
  exact ⟨scale, inputDivisor, displayDivisor, isScale, scaleNat, isInput, inputNonzero, inputNat,
    isDisplay, displayNonzero, displayNat⟩

theorem fixedText_shows_iff {scaled decimals : Nat} {amount : ℚ} (some_ : 0 < decimals) :
    Shows (fixedText scaled decimals) decimals amount ↔
      scaled = ⌊amount * 10 ^ decimals⌋₊ := by
  have isDecimal := fixedText_isDecimal scaled some_
  have small : scaled % 10 ^ decimals < 10 ^ decimals := Nat.mod_lt _ (Nat.pow_pos (by decide))
  have places := zeroPadded_length small some_
  have value : (scaled : ℚ) = decimalValue (decimal (scaled / 10 ^ decimals))
      (zeroPadded decimals (decimal (scaled % 10 ^ decimals))) * 10 ^ decimals := by
    rw [← scaledValue_eq places.le, fixedText_scaledValue scaled some_]
  constructor
  · rintro ⟨whole, frac, isOther, -, shown⟩
    obtain ⟨rfl, rfl⟩ := isDecimal.unique isOther
    rw [← value] at shown
    exact_mod_cast shown
  · intro isFloor
    refine ⟨_, _, isDecimal, places, ?_⟩
    rw [← value, isFloor]

/-! ## Reading -/

theorem orError_bind_ok_iff {error : String} {value : Option UInt64} {amount : UInt64}
    {next : UInt64 → Except String UInt64} :
    (orError error value >>= next) = .ok amount ↔
      ∃ read, value = some read ∧ next read = .ok amount := by
  cases value with
  | none => simp [orError, Bind.bind, Except.bind]
  | some read => simp [orError, Bind.bind, Except.bind]

theorem divideExactly_eq_ok_iff {numer denomDivisor amount : UInt64} :
    divideExactly numer denomDivisor = .ok amount ↔
      denomDivisor ≠ 0 ∧ numer.toNat = amount.toNat * denomDivisor.toNat := by
  rw [divideExactly]
  split
  · rename_i zero
    exact iff_of_false (fun failed => nomatch failed) fun divided => divided.1 zero
  · rename_i nonzero
    have positive : 0 < denomDivisor.toNat := by
      rw [Nat.pos_iff_ne_zero, ne_eq, ← UInt64.toNat_zero, UInt64.toNat_inj]
      exact nonzero
    have isMultiple : numer % denomDivisor = 0 ↔ denomDivisor.toNat ∣ numer.toNat := by
      rw [← UInt64.toNat_inj, UInt64.toNat_mod, UInt64.toNat_zero, Nat.dvd_iff_mod_eq_zero]
    split
    · rename_i rounded
      refine iff_of_false (fun failed => nomatch failed) fun divided => rounded ?_
      exact isMultiple.mpr ⟨amount.toNat, by rw [divided.2, Nat.mul_comm]⟩
    · rename_i exact_
      have divides := isMultiple.mp (not_not.mp exact_)
      rw [Except.ok.injEq, ← UInt64.toNat_inj, UInt64.toNat_div,
        Nat.div_eq_iff_eq_mul_left positive divides]
      exact ⟨fun divided => ⟨nonzero, divided⟩, And.right⟩

section Resolved

variable {asset : AssetID} {denomination : Bytes} {denom : DenominationDefinition}

/-- An amount is read when it is a whole number of base units, and as many units of the last
place of the token as base units of the denomination fit a word. -/
theorem parseDisplayAmountWithDenomination_eq_ok_iff
    (resolved : resolveDenomination asset (chosenName asset denomination) = some denom)
    (input : denom.allowInput = true) {value whole frac : Bytes} {amount : UInt64}
    (isDecimal : IsDecimal value whole frac) (short : frac.length ≤ denom.allowedDecimals) :
    parseDisplayAmountWithDenomination value asset denomination = .ok amount ↔
      scaledValue whole frac denom.allowedDecimals * denom.tokenUnitsNumerator.toNat *
          (getTokenBaseUnit asset).toNat < 2 ^ 64 ∧
        scaledValue whole frac denom.allowedDecimals * denom.tokenUnitsNumerator.toNat =
          amount.toNat * denom.tokenUnitsDenominator.toNat := by
  have tabled := tabled_of_mem (mem_of_resolved resolved)
  have numPos := tabled.numerator_pos
  have denPos := tabled.denominator_pos
  have places : denom.allowedDecimals ≤ 19 := by
    rw [tabled.places]
    decide
  have base := getTokenBaseUnit_toNat asset
  obtain ⟨scale, divisor, -, isScale, -, isDivisor, divisorNonzero, divisorNat, -⟩ :=
    tabled.words asset
  rw [parseDisplayAmountWithDenomination, resolved]
  dsimp only
  rw [if_neg (by simp [input]), isScale, Option.getD_some, orError_bind_ok_iff]
  simp only [orError_bind_ok_iff, isDivisor, Option.some.injEq, exists_eq_left',
    divideExactly_eq_ok_iff, divisorNat, ← Nat.mul_assoc, parseScaledDecimal_eq_some_iff places]
  simp only [mulOverflow, SafeMath.mul_eq_some_iff, base]
  constructor
  · rintro ⟨scaled, ⟨otherWhole, otherFrac, isOther, -, isScaled⟩, denomRaw, isRaw, numer, isNumer,
      -, divided⟩
    obtain ⟨rfl, rfl⟩ := isDecimal.unique isOther
    have small := numer.toNat_lt
    rw [isScaled, isRaw]
    exact ⟨by omega, by omega⟩
  · rintro ⟨fits, isAmount⟩
    have rawLe : scaledValue whole frac denom.allowedDecimals * 1 ≤
        scaledValue whole frac denom.allowedDecimals * denom.tokenUnitsNumerator.toNat :=
      Nat.mul_le_mul_left _ numPos
    have scaledFits : scaledValue whole frac denom.allowedDecimals < 2 ^ 64 := by omega
    have rawFits : scaledValue whole frac denom.allowedDecimals *
        denom.tokenUnitsNumerator.toNat < 2 ^ 64 := by omega
    refine ⟨.ofNat (scaledValue whole frac denom.allowedDecimals),
      ⟨whole, frac, isDecimal, short, (UInt64.toNat_ofNat_of_lt' scaledFits).symm⟩,
      .ofNat (scaledValue whole frac denom.allowedDecimals * denom.tokenUnitsNumerator.toNat), ?_,
      .ofNat (scaledValue whole frac denom.allowedDecimals * denom.tokenUnitsNumerator.toNat *
        10 ^ 8), ?_, divisorNonzero, ?_⟩
    · rw [UInt64.toNat_ofNat_of_lt' scaledFits, UInt64.toNat_ofNat_of_lt' rawFits]
    · rw [UInt64.toNat_ofNat_of_lt' rawFits, UInt64.toNat_ofNat_of_lt' fits]
    · rw [UInt64.toNat_ofNat_of_lt' fits, isAmount, Nat.mul_assoc]

theorem toBaseUnits_eq_iff (tabled : denom.Tabled) {whole frac : Bytes} {amount : Nat}
    (short : frac.length ≤ denom.allowedDecimals) :
    denom.toBaseUnits asset (decimalValue whole frac) = amount ↔
      scaledValue whole frac denom.allowedDecimals * denom.tokenUnitsNumerator.toNat =
        amount * denom.tokenUnitsDenominator.toNat := by
  have nonzero : (denom.tokenUnitsDenominator.toNat : ℚ) ≠ 0 := by
    exact_mod_cast tabled.denominator_pos.ne'
  have scaled : (scaledValue whole frac 8 : ℚ) = decimalValue whole frac * 10 ^ 8 :=
    scaledValue_eq (tabled.places ▸ short)
  have exact_ : denom.toBaseUnits asset (decimalValue whole frac) =
      ((scaledValue whole frac 8 * denom.tokenUnitsNumerator.toNat : ℕ) : ℚ) /
        denom.tokenUnitsDenominator.toNat := by
    rw [DenominationDefinition.toBaseUnits, getTokenBaseUnit_toNat]
    push_cast
    rw [scaled]
    ring
  rw [exact_, div_eq_iff nonzero, tabled.places]
  norm_cast

/-! ## Showing -/

/-- The name that a view puts in the place of a denomination stands for the same one. -/
theorem resolveDenomination_shown
    (resolved : resolveDenomination asset (chosenName asset denomination) = some denom) :
    resolveDenomination asset (chosenName asset
      (if denomination.isEmpty then defaultDenominationName asset
        else lower (trim denomination))) = some denom := by
  by_cases empty : denomination.isEmpty = true
  · rw [chosenName, if_pos empty] at resolved
    rw [if_pos empty, chosenName, ite_self]
    exact resolved
  · rw [chosenName, if_neg empty] at resolved
    obtain ⟨again, some_⟩ := resolveDenomination_lower_trim resolved
    have named : ¬ (lower (trim denomination)).isEmpty = true := by simpa using some_
    rw [if_neg empty, chosenName, if_neg named]
    exact again

/-- The text is the quotient, unless the amount in units of the last place overflows before it is
divided. -/
theorem formatAmountWithDenomination_text
    (resolved : resolveDenomination asset (chosenName asset denomination) = some denom)
    (amountRaw : UInt64) :
    (formatAmountWithDenomination amountRaw asset denomination).map Prod.fst =
      if amountRaw.toNat * denom.tokenUnitsDenominator.toNat * 10 ^ denom.allowedDecimals < 2 ^ 64
      then some (fixedText (amountRaw.toNat * denom.tokenUnitsDenominator.toNat /
        denom.tokenUnitsNumerator.toNat) denom.allowedDecimals)
      else none := by
  have tabled := tabled_of_mem (mem_of_resolved resolved)
  have numPos := tabled.numerator_pos
  have places : denom.allowedDecimals ≤ 19 := by
    rw [tabled.places]
    decide
  obtain ⟨scale, -, divisor, isScale, scaleNat, -, -, -, isDivisor, divisorNonzero, divisorNat⟩ :=
    tabled.words asset
  rw [formatAmountWithDenomination, resolved, Option.bind_eq_bind, Option.bind_some, isScale,
    Option.getD_some]
  rw [← tabled.places] at scaleNat
  by_cases fits : amountRaw.toNat * denom.tokenUnitsDenominator.toNat *
      10 ^ denom.allowedDecimals < 2 ^ 64
  · have powPos : 0 < 10 ^ denom.allowedDecimals := Nat.pow_pos (by decide)
    have rawLe := Nat.le_mul_of_pos_right
      (amountRaw.toNat * denom.tokenUnitsDenominator.toNat) powPos
    have lhsNat : (amountRaw * denom.tokenUnitsDenominator).toNat =
        amountRaw.toNat * denom.tokenUnitsDenominator.toNat := by
      rw [UInt64.toNat_mul, Nat.mod_eq_of_lt (by omega)]
    have numerFits : (amountRaw * denom.tokenUnitsDenominator).toNat * scale.toNat < 2 ^ 64 := by
      rw [lhsNat, scaleNat]
      exact fits
    have isLhs : mulOverflow amountRaw denom.tokenUnitsDenominator =
        some (amountRaw * denom.tokenUnitsDenominator) := SafeMath.mul_of_fits (by omega)
    have isNumer : mulOverflow (amountRaw * denom.tokenUnitsDenominator) scale =
        some (amountRaw * denom.tokenUnitsDenominator * scale) := SafeMath.mul_of_fits numerFits
    have quotient : (amountRaw * denom.tokenUnitsDenominator * scale / divisor).toNat =
        amountRaw.toNat * denom.tokenUnitsDenominator.toNat / denom.tokenUnitsNumerator.toNat := by
      rw [UInt64.toNat_div, UInt64.toNat_mul, Nat.mod_eq_of_lt numerFits, lhsNat, scaleNat,
        divisorNat, tabled.places, Nat.mul_comm, Nat.mul_div_mul_left _ _ (by decide)]
    simp only [isLhs, isNumer, isDivisor, Option.bind_eq_bind, Option.bind_some,
      if_neg divisorNonzero, Option.map_some, if_pos fits, formatScaledDecimal_eq _ places, quotient]
  · rw [if_neg fits]
    cases isLhs : mulOverflow amountRaw denom.tokenUnitsDenominator with
    | none => rfl
    | some lhs =>
        cases isNumer : mulOverflow lhs scale with
        | none => simp [isNumer]
        | some numer =>
            have small := numer.toNat_lt
            rw [SafeMath.mul_some isNumer, SafeMath.mul_some isLhs, scaleNat] at small
            exact absurd small fits

theorem floor_ofBaseUnits (tabled : denom.Tabled) (amountRaw : Nat) :
    ⌊denom.ofBaseUnits asset amountRaw * 10 ^ denom.allowedDecimals⌋₊ =
      amountRaw * denom.tokenUnitsDenominator.toNat / denom.tokenUnitsNumerator.toNat := by
  have exact_ : denom.ofBaseUnits asset amountRaw * 10 ^ denom.allowedDecimals =
      ((amountRaw * denom.tokenUnitsDenominator.toNat : ℕ) : ℚ) /
        (denom.tokenUnitsNumerator.toNat : ℚ) := by
    rw [DenominationDefinition.ofBaseUnits, getTokenBaseUnit_toNat, tabled.places]
    push_cast
    ring
  rw [exact_, Nat.floor_div_eq_div]

/-- A view shows the amount in tokens where the denomination would overflow, which is the same
text only for a denomination that is the token. -/
theorem buildAmountView_shows_iff
    (resolved : resolveDenomination asset (chosenName asset denomination) = some denom)
    (amountRaw : UInt64) (dualDisplay : Bool) :
    Shows (buildAmountView amountRaw asset denomination dualDisplay).amountFormatted
        denom.allowedDecimals (denom.ofBaseUnits asset amountRaw.toNat) ↔
      amountRaw.toNat * denom.tokenUnitsDenominator.toNat * 10 ^ denom.allowedDecimals < 2 ^ 64 ∨
        denom.tokenUnitsNumerator = denom.tokenUnitsDenominator := by
  have tabled := tabled_of_mem (mem_of_resolved resolved)
  have numPos := tabled.numerator_pos
  have some_ : 0 < denom.allowedDecimals := by
    rw [tabled.places]
    decide
  have formatted := formatAmountWithDenomination_text (resolveDenomination_shown resolved) amountRaw
  simp only [buildAmountView, formatted]
  split
  · rename_i fits
    rw [Option.getD_some, fixedText_shows_iff some_, floor_ofBaseUnits tabled]
    exact iff_of_true rfl (.inl fits)
  · rename_i exceeds
    have canonical : formatAmount amountRaw asset =
        fixedText amountRaw.toNat denom.allowedDecimals := by
      rw [formatAmount_eq, getTokenDecimals_eq, tabled.places]
    rw [Option.getD_none, canonical, fixedText_shows_iff some_, floor_ofBaseUnits tabled,
      ← UInt64.toNat_inj, or_iff_right exceeds]
    have nonzero : 0 < amountRaw.toNat := by
      by_contra zero
      rw [Nat.eq_zero_of_not_pos zero] at exceeds
      omega
    rcases tabled.whole_or_part with one | one
    · rw [one, Nat.div_one]
      constructor
      · intro same
        have cancelled : amountRaw.toNat * 1 = amountRaw.toNat * denom.tokenUnitsDenominator.toNat := by
          omega
        exact Nat.eq_of_mul_eq_mul_left nonzero cancelled
      · intro same
        rw [← same, Nat.mul_one]
    · rw [one, Nat.mul_one]
      constructor
      · intro same
        have least : ¬ 1 < denom.tokenUnitsNumerator.toNat := fun several =>
          (Nat.div_lt_self nonzero several).ne same.symm
        omega
      · intro same
        rw [same, Nat.div_one]

/-- Amounts are converted exactly as long as the smallest common unit of the conversion does not
overflow, or else where the exact amount is refused anyway, and shown in the token itself. -/
theorem denominations_exact_iff
    (resolved : resolveDenomination asset (chosenName asset denomination) = some denom) :
    (denom.allowInput = true → ∀ value whole frac : Bytes, IsDecimal value whole frac →
      frac.length ≤ denom.allowedDecimals →
        ((∀ amount : UInt64,
          parseDisplayAmountWithDenomination value asset denomination = .ok amount ↔
            denom.toBaseUnits asset (decimalValue whole frac) = amount.toNat) ↔
          let units :=
            scaledValue whole frac denom.allowedDecimals * denom.tokenUnitsNumerator.toNat
          units * (getTokenBaseUnit asset).toNat < 2 ^ 64 ∨
            ¬ denom.tokenUnitsDenominator.toNat ∣ units ∨
              2 ^ 64 ≤ units / denom.tokenUnitsDenominator.toNat)) ∧
      ∀ (amountRaw : UInt64) (dualDisplay : Bool),
        (Shows (buildAmountView amountRaw asset denomination dualDisplay).amountFormatted
            denom.allowedDecimals (denom.ofBaseUnits asset amountRaw.toNat) ↔
          amountRaw.toNat * denom.tokenUnitsDenominator.toNat * 10 ^ denom.allowedDecimals <
              2 ^ 64 ∨
            denom.tokenUnitsNumerator = denom.tokenUnitsDenominator) := by
  refine ⟨fun input value whole frac isDecimal short => ?_, buildAmountView_shows_iff resolved⟩
  have tabled := tabled_of_mem (mem_of_resolved resolved)
  have denPos := tabled.denominator_pos
  dsimp only
  constructor
  · intro converted
    by_contra neither
    obtain ⟨exceeds, isMultiple, small⟩ : _ ∧ _ ∧ _ := by
      simpa only [not_or, not_not, Nat.not_le] using neither
    obtain ⟨quotient, isQuotient⟩ := isMultiple
    rw [isQuotient, Nat.mul_div_cancel_left _ denPos] at small
    have worth : denom.toBaseUnits asset (decimalValue whole frac) =
        (UInt64.ofNat quotient).toNat := by
      rw [toBaseUnits_eq_iff tabled short, UInt64.toNat_ofNat_of_lt' small, isQuotient,
        Nat.mul_comm]
    have parsed := (converted (.ofNat quotient)).mpr worth
    rw [parseDisplayAmountWithDenomination_eq_ok_iff resolved input isDecimal short] at parsed
    exact exceeds parsed.1
  · intro condition amount
    rw [parseDisplayAmountWithDenomination_eq_ok_iff resolved input isDecimal short,
      toBaseUnits_eq_iff tabled short]
    refine and_iff_right_of_imp fun isAmount => ?_
    rcases condition with fits | notMultiple | large
    · exact fits
    · exact absurd ⟨amount.toNat, by rw [isAmount, Nat.mul_comm]⟩ notMultiple
    · have small := amount.toNat_lt
      rw [isAmount, Nat.mul_div_cancel _ denPos] at large
      omega

end Resolved

/-- One and a half obols is a quarter of a drachma. -/
theorem denominations_exact_iff_obol :
    ∃ denom, resolveDenomination .drachma (chosenName .drachma (text " Ob".toList)) = some denom ∧
      ∀ amount : UInt64,
        parseDisplayAmountWithDenomination (text "1.5".toList) .drachma (text " Ob".toList) =
            .ok amount ↔
          denom.toBaseUnits .drachma (decimalValue (text "1".toList) (text "5".toList)) =
            amount.toNat := by
  obtain ⟨denom, resolved, input, isNumerator, places⟩ :
      ∃ denom, resolveDenomination .drachma (chosenName .drachma (text " Ob".toList)) =
          some denom ∧ denom.allowInput = true ∧ denom.tokenUnitsNumerator.toNat = 1 ∧
            denom.allowedDecimals = 8 :=
    ⟨drDenoms.get ⟨1, by decide⟩, by decide +kernel⟩
  have isDecimal : IsDecimal (text "1.5".toList) (text "1".toList) (text "5".toList) :=
    ⟨by decide, by decide, by decide, .inr rfl⟩
  have short : (text "5".toList).length ≤ denom.allowedDecimals := by
    rw [places]
    decide
  have exact_ := (denominations_exact_iff resolved).1 input _ _ _ isDecimal short
  refine ⟨denom, resolved, exact_.mpr (.inl ?_)⟩
  rw [getTokenBaseUnit_toNat, isNumerator, places]
  decide +kernel

/-- Two thousand talents fit a word of base units, and are refused as an overflow. -/
theorem denominations_inexact :
    ¬ ∀ (asset : AssetID) (denomination : Bytes) (denom : DenominationDefinition),
      resolveDenomination asset (chosenName asset denomination) = some denom →
        (denom.allowInput = true → ∀ value whole frac : Bytes, IsDecimal value whole frac →
          frac.length ≤ denom.allowedDecimals → ∀ amount : UInt64,
            parseDisplayAmountWithDenomination value asset denomination = .ok amount ↔
              denom.toBaseUnits asset (decimalValue whole frac) = amount.toNat) ∧
          ∀ (amountRaw : UInt64) (dualDisplay : Bool),
            Shows (buildAmountView amountRaw asset denomination dualDisplay).amountFormatted
              denom.allowedDecimals (denom.ofBaseUnits asset amountRaw.toNat) := by
  intro converted
  obtain ⟨denom, resolved, input, isNumerator, isDenominator, places⟩ :
      ∃ denom, resolveDenomination .talanton (chosenName .talanton []) = some denom ∧
        denom.allowInput = true ∧ denom.tokenUnitsNumerator.toNat = 1 ∧
          denom.tokenUnitsDenominator.toNat = 1 ∧ denom.allowedDecimals = 8 :=
    ⟨talDenoms.head (by decide), by decide +kernel⟩
  have isDecimal : IsDecimal (text "2000".toList) (text "2000".toList) [] :=
    ⟨by decide, by decide, by decide, .inl ⟨rfl, rfl⟩⟩
  have units : scaledValue (text "2000".toList) [] 8 = (200000000000 : UInt64).toNat := by
    decide +kernel
  have worth : denom.toBaseUnits .talanton (decimalValue (text "2000".toList) []) =
      (200000000000 : UInt64).toNat := by
    rw [toBaseUnits_eq_iff (tabled_of_mem (mem_of_resolved resolved)) (Nat.zero_le _),
      isNumerator, isDenominator, places, units]
  have parsed := ((converted _ _ _ resolved).1 input _ _ _ isDecimal (Nat.zero_le _) _).mpr worth
  have refused : parseDisplayAmountWithDenomination (text "2000".toList) .talanton [] =
      .error "amount overflow" := by
    decide +kernel
  rw [refused] at parsed
  cases parsed

end Parthenon.Monetary
